import Multiswap.Scheduler.Fallback

/-!
# A failed `sswap_add_mapping`

The old slot is released before the search and the new one is reserved before
`xa_store`, and neither is undone when what follows fails. Only a full node is
reported, by `mapping_full`.
-/

namespace Multiswap

variable {cfg : Config} {s : Scheduler} {t p : ℕ} {flags : RemoteMappingFlags} {xaErr : Bool}

/-- The call has to fail: with the old slot released there is no free slot on the
node, or `xa_store` is called and returns an error. -/
def MustFail (cfg : Config) (s : Scheduler) (t p : ℕ) (flags : RemoteMappingFlags) (xaErr : Bool) :
    Prop :=
  freeSlots cfg (s.released p) t = ∅ ∨ xaErr = true ∧ flags.mappingFull = false

/-- The call reports a failure and leaves the bitmaps, the free counts and the
mappings as they were. -/
def AllOrNothing (cfg : Config) (s : Scheduler) (t p : ℕ) (flags : RemoteMappingFlags)
    (xaErr : Bool) : Prop :=
  ∃ ret flags' s', sswapAddMapping cfg xaErr t p flags s = .ok (ret, flags', s') ∧
    flags'.mappingFull = true ∧ s'.remoteMap = s.remoteMap ∧ ∀ q, s'.mappingOf q = s.mappingOf q

/-- The slot that a pageid has is released. -/
theorem released_remoteMap_ne (h : s.Consistent cfg) {l : ℕ × ℕ} (hm : s.mappingOf p = some l) :
    (s.released p).remoteMap ≠ s.remoteMap := by
  obtain ⟨u, y⟩ := l
  intro heq
  have hset : s.bit u y = true := (h.owned u y (h.entries p u y hm)).mpr ⟨p, hm⟩
  have hclear : (s.released p).bit u y = false := by rw [released_bit, if_pos hm]
  rw [Scheduler.bit, heq] at hclear
  rw [Scheduler.bit, hclear] at hset
  cases hset

/-- With a free slot but an error of `xa_store`, the call returns as if it had succeeded. -/
theorem sswapAddMapping_unstored (h : s.Consistent cfg) (hdebug : cfg.debugVm = false)
    (hr : cfg.InRange p) (hflags : flags.mappingFull = false) {x : ℕ}
    (hx : IsLeast (freeSlots cfg (s.released p) t) x) :
    sswapAddMapping cfg true t p flags s =
      .ok (u64 (u32 x <<< pageShift), { flags with mappingSuccess := true },
        (s.released p).setBit t (x / remoteAddressSpacePages) (x % remoteAddressSpacePages)) := by
  rw [sswapAddMapping_released h hr,
    placePage_unstored (((released_repInv h p).node hx.1.1.1).sswapSelectSlot_least flags hx) hflags hdebug]

/-- Without a free slot the call gives up, with the old slot released. -/
theorem sswapAddMapping_full (h : s.Consistent cfg) (ht : t < maxRemoteNodes) (hr : cfg.InRange p)
    (hfull : freeSlots cfg (s.released p) t = ∅) :
    sswapAddMapping cfg xaErr t p flags s =
      if 0 < cfg.nrRemoteMaps t then .ok (0, { flags with mappingFull := true }, s.released p)
      else .error (.remoteMap t 0) := by
  rw [sswapAddMapping_released h hr]
  exact placePage_noRoom ht fun g hg => ((released_repInv h p).node ht).freePages_eq_zero ht hfull hg

/-- A failing call is all-or-nothing exactly if it fails for want of a slot and
there is no old slot to lose. -/
theorem all_or_nothing_iff (h : s.Consistent cfg) (hdebug : xaErr = true → cfg.debugVm = false)
    (ht : t < maxRemoteNodes) (hr : cfg.InRange p) (hfail : MustFail cfg s t p flags xaErr) :
    AllOrNothing cfg s t p flags xaErr ↔
      s.mappingOf p = none ∧ freeSlots cfg s t = ∅ ∧ 0 < cfg.nrRemoteMaps t := by
  by_cases hfull : freeSlots cfg (s.released p) t = ∅
  · have hadd : sswapAddMapping cfg xaErr t p flags s = _ := sswapAddMapping_full h ht hr hfull
    constructor
    · rintro ⟨ret, flags', s', hok, -, hmaps, -⟩
      rw [hadd] at hok
      split at hok
      · next hpos =>
        simp only [Except.ok.injEq, Prod.mk.injEq] at hok
        obtain ⟨-, -, rfl⟩ := hok
        have hm : s.mappingOf p = none := by
          cases hm : s.mappingOf p with
          | none => rfl
          | some l => exact absurd hmaps (released_remoteMap_ne h hm)
        rw [released_of_none hm] at hfull
        exact ⟨hm, hfull, hpos⟩
      · cases hok
    · rintro ⟨hm, -, hpos⟩
      rw [if_pos hpos, released_of_none hm] at hadd
      exact ⟨0, _, s, hadd, rfl, rfl, fun _ => rfl⟩
  · obtain ⟨rfl, hflags⟩ : xaErr = true ∧ flags.mappingFull = false := hfail.resolve_left hfull
    constructor
    · -- the result of the call is that of a success
      rintro ⟨ret, flags', s', hok, hreport, -⟩
      have hleast := (Set.nonempty_iff_ne_empty.mpr hfull).isLeast_natFind
      rw [sswapAddMapping_unstored h (hdebug rfl) hr hflags hleast] at hok
      simp only [Except.ok.injEq, Prod.mk.injEq] at hok
      rw [← hok.2.1, hflags] at hreport
      cases hreport
    · rintro ⟨hm, hnone, -⟩
      rw [released_of_none hm] at hfull
      exact absurd hnone hfull

theorem filled_released_freeSlots {full : ℕ → Bool} {p : ℕ} (hfull : full t = true)
    (hm : ∀ x, (Scheduler.filled full).mappingOf p ≠ some (t, x)) :
    freeSlots smallNodes ((Scheduler.filled full).released p) t = ∅ := by
  refine freeSlots_eq_empty.mpr fun x _ => ?_
  rw [released_bit, if_neg (hm x), Scheduler.filled_bit, hfull]

/-- Both nodes are full and pageid 32768 has no mapping: its failure changes nothing. -/
theorem all_or_nothing_unmapped :
    AllOrNothing smallNodes (Scheduler.filled fun _ => true) 0 32768 .clear false := by
  have hm : (Scheduler.filled fun _ => true).mappingOf 32768 = none := by
    simp [Scheduler.filled_mappingOf]
  have hfull : freeSlots smallNodes ((Scheduler.filled fun _ => true).released 32768) 0 = ∅ :=
    filled_released_freeSlots rfl (by simp [hm])
  refine (all_or_nothing_iff (Scheduler.filled_consistent _) (fun _ => rfl) (by decide) (by decide)
    (.inl hfull)).mpr ⟨hm, ?_, by decide⟩
  rwa [released_of_none hm] at hfull

/-- Both nodes are full and pageid 1 has slot 0 of node 1: a call for node 0 fails
with that slot free, but still recorded for the pageid. -/
theorem all_or_nothing_counterexample :
    (∃ s', sswapAddMapping smallNodes false 0 1 .clear (Scheduler.filled fun _ => true) =
        .ok (0, ⟨false, true⟩, s') ∧ s'.bit 1 0 = false ∧ s'.mappingOf 1 = some (1, 0)) ∧
    ¬ ∀ (cfg : Config) (s : Scheduler) (t p : ℕ) (flags : RemoteMappingFlags) (xaErr : Bool),
      s.Consistent cfg → (xaErr = true → cfg.debugVm = false) → t < maxRemoteNodes → cfg.InRange p →
        MustFail cfg s t p flags xaErr → AllOrNothing cfg s t p flags xaErr := by
  have hcon := Scheduler.filled_consistent fun _ => true
  have hr : smallNodes.InRange 1 := by decide
  have hm : (Scheduler.filled fun _ => true).mappingOf 1 = some (1, 0) := by
    simp [Scheduler.filled_mappingOf]
  have hfull : freeSlots smallNodes ((Scheduler.filled fun _ => true).released 1) 0 = ∅ :=
    filled_released_freeSlots rfl (by simp [hm])
  have hadd : sswapAddMapping smallNodes false 0 1 .clear (Scheduler.filled fun _ => true) = _ :=
    sswapAddMapping_full hcon (by decide) hr hfull
  rw [if_pos (by decide)] at hadd
  constructor
  · refine ⟨_, hadd, ?_, ?_⟩
    · rw [released_bit, if_pos hm]
    · rw [released_mappingOf, hm]
  · intro h
    obtain ⟨ret, flags', s', hok, -, hmaps, -⟩ :=
      h _ _ 0 1 .clear false hcon nofun (by decide) hr (.inl hfull)
    rw [hadd] at hok
    simp only [Except.ok.injEq, Prod.mk.injEq] at hok
    obtain ⟨-, -, rfl⟩ := hok
    exact released_remoteMap_ne hcon hm hmaps

end Multiswap
