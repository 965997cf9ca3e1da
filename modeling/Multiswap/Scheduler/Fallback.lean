import Multiswap.Scheduler.Relocate

/-!
# The fallback to the other node

When the preferred node is full, `sswap_scheduler_write` calls
`sswap_add_mapping` again, for the other node, with the flags and the state that
the first call left: `mapping_full` is still set, so the slot that the second
call reserves is never recorded, and an old slot is released a second time.
-/

namespace Multiswap

open BitSearch (zeroCount firstZero)

variable {cfg : Config} {s : Scheduler} {p : ℕ} {xaErr : Bool}

/-- The preferred node has no free slot, also once the slot that the pageid may
have there is released. -/
def PreferredFull (cfg : Config) (s : Scheduler) (p : ℕ) : Prop :=
  ∀ x, cfg.HasSlot (preferredNode p) x →
    s.bit (preferredNode p) x = true ∧ s.mappingOf p ≠ some (preferredNode p, x)

/-- The other node has a free slot, or the pageid has one there. -/
def OtherAvailable (cfg : Config) (s : Scheduler) (p : ℕ) : Prop :=
  (∃ x, cfg.HasSlot (otherNode p) x ∧ s.bit (otherNode p) x = false) ∨
    ∃ x, s.mappingOf p = some (otherNode p, x)

/-- What a fallback has to do: return and record a slot of the other node that
was free or the page's own, and change nothing else. -/
def FallbackCorrect (cfg : Config) (s : Scheduler) (p : ℕ) : Prop :=
  ∃ x s', sswapSchedulerWrite cfg false p s = .ok (u64 (x <<< pageShift), otherNode p, s') ∧
    (cfg.HasSlot (otherNode p) x ∧ s.bit (otherNode p) x = false ∨
      s.mappingOf p = some (otherNode p, x)) ∧
    s'.mappingOf p = some (otherNode p, x) ∧
    (∀ q, q ≠ p → s'.mappingOf q = s.mappingOf q) ∧
    s'.Consistent cfg

/-- A preferred node that is full has no free slot. -/
theorem PreferredFull.freeSlots (h : PreferredFull cfg s p) :
    freeSlots cfg s (preferredNode p) = ∅ :=
  freeSlots_eq_empty.mpr fun x hslot => (h x hslot).1

/-- `sswap_add_mapping` on a full node, once the old slot is released: it gives
up, unless the node has no groups at all. -/
theorem placePage_noRoom {t : ℕ} {flags : RemoteMappingFlags} (ht : t < 2)
    (hfull : ∀ g < cfg.nrRemoteMaps t, (s.remoteMap t g).freePages = 0) :
    placePage cfg xaErr t p flags s =
      if 0 < cfg.nrRemoteMaps t then .ok (0, { flags with mappingFull := true }, s)
      else .error (.remoteMap t 0) := by
  split
  · next hpos => exact placePage_full (sswapSelectSlot_full ht hpos hfull) rfl
  · next hpos =>
    have hmap : mapAt cfg t 0 = .error (.remoteMap t 0) := if_neg fun h => hpos h.2
    simp only [placePage, sswapSelectSlot, hmap, bind, Except.bind]

/-- When the first attempt finds no room, the second starts from the state
that the first has left, with `mapping_full` set. -/
theorem sswapSchedulerWrite_noRoom {s₁ : Scheduler}
    (hadd : sswapAddMapping cfg xaErr (preferredNode p) p .clear s =
      placePage cfg xaErr (preferredNode p) p .clear s₁)
    (hfull : ∀ g < cfg.nrRemoteMaps (preferredNode p),
      (s₁.remoteMap (preferredNode p) g).freePages = 0) :
    sswapSchedulerWrite cfg xaErr p s =
      if 0 < cfg.nrRemoteMaps (preferredNode p) then
        (sswapAddMapping cfg xaErr (otherNode p) p ⟨false, true⟩ s₁).map
          fun r => (r.1, otherNode p, r.2.2)
      else .error (.remoteMap (preferredNode p) 0) := by
  have hfirst := hadd.trans (placePage_noRoom (preferredNode_lt p) hfull)
  split
  · next hpos =>
    rw [if_pos hpos] at hfirst
    exact sswapSchedulerWrite_second hfirst rfl
  · next hpos =>
    rw [if_neg hpos] at hfirst
    exact sswapSchedulerWrite_error hfirst

/-- `sswap_add_mapping` with `mapping_full` set on entry reserves a slot, records
nothing and returns `0`. -/
theorem placePage_unrecorded (cfg : Config) (p : ℕ) (xaErr : Bool) (flags : RemoteMappingFlags)
    {t : ℕ} (ht : t < 2)
    (hnr : (s.remoteMap t 0).nrPages = remoteAddressSpacePages) (hflags : flags.mappingFull = true)
    (hex : ∃ g < cfg.nrRemoteMaps t, (s.remoteMap t g).freePages ≠ 0) :
    ∃ g, placePage cfg xaErr t p flags s = .ok (0, { flags with mappingSuccess := true },
      s.setBit t g (firstZero (s.remoteMap t g).mapping remoteAddressSpacePages)) := by
  obtain ⟨g, _, _, _, hsel⟩ := sswapSelectSlot_found flags ht hnr hex
  exact ⟨g, placePage_full hsel hflags⟩

/-- Releasing a free slot counts its page as free twice, and reserving the lowest
free slot of some group afterwards does not make up for it. -/
theorem not_consistent_of_released {t g b : ℕ} (ht : t < 2) (hg : g < cfg.nrRemoteMaps t)
    (hb : b < remoteAddressSpacePages) (hbit : (s.remoteMap t g).mapping b = false)
    (hcount : (s.remoteMap t g).freePages = zeroCount (s.remoteMap t g).mapping remoteAddressSpacePages)
    (g' : ℕ) :
    ¬ ((s.clearBit t g b).setBit t g' (firstZero ((s.clearBit t g b).remoteMap t g').mapping
      remoteAddressSpacePages)).Consistent cfg := by
  intro hcon
  have hmapping : ((s.clearBit t g b).remoteMap t g).mapping = (s.remoteMap t g).mapping := by
    simp only [Scheduler.clearBit_remoteMap, and_self, if_true]
    rw [← hbit, Function.update_eq_self]
  have hfree : ((s.clearBit t g b).remoteMap t g).freePages = (s.remoteMap t g).freePages + 1 := by
    simp only [Scheduler.clearBit_remoteMap, and_self, if_true]
  have hafter := hcon.freePages t g ht hg
  rw [Scheduler.setBit_remoteMap] at hafter
  by_cases hgg : g = g'
  · subst hgg
    simp only [and_self, if_true, hmapping, hfree] at hafter
    have hlt : firstZero (s.remoteMap t g).mapping remoteAddressSpacePages <
        remoteAddressSpacePages := by
      rw [BitSearch.firstZero_lt_iff]
      intro hzero
      rw [BitSearch.zeroCount_eq_zero.mp hzero b hb] at hbit
      cases hbit
    have hset := BitSearch.zeroCount_set hlt (BitSearch.firstZero_zero hlt)
    omega
  · rw [if_neg fun h => hgg h.2, hmapping, hfree] at hafter
    omega

/-- If the preferred node is full, a mapped pageid has its slot on the other node. -/
theorem PreferredFull.node_eq (hfull : PreferredFull cfg s p) {t x : ℕ} (hslot : cfg.HasSlot t x)
    (hm : s.mappingOf p = some (t, x)) : t = otherNode p := by
  have hne : t ≠ preferredNode p := by
    rintro rfl
    exact (hfull x hslot).2 hm
  have hlt := hslot.1
  simp only [maxRemoteNodes_eq] at hlt
  rw [preferredNode] at hne
  rw [otherNode]
  omega

/-- A fallback of an unmapped pageid returns `0` and records nothing. -/
theorem fallback_unmapped (h : s.Consistent cfg) (hr : cfg.InRange p) (hfull : PreferredFull cfg s p)
    (hother : ∃ x, cfg.HasSlot (otherNode p) x ∧ s.bit (otherNode p) x = false)
    (hm : s.mappingOf p = none) {ret type : ℕ} {s' : Scheduler}
    (hw : sswapSchedulerWrite cfg xaErr p s = .ok (ret, type, s')) :
    ret = 0 ∧ s'.mappingOf p = none := by
  have hot := otherNode_lt p
  rw [sswapSchedulerWrite_noRoom (sswapAddMapping_none hr hm) fun g hg =>
    (h.node (preferredNode_lt p)).freePages_eq_zero (preferredNode_lt p) hfull.freeSlots hg] at hw
  split at hw
  · obtain ⟨x, hslot, hbit⟩ := hother
    obtain ⟨g, hplace⟩ := placePage_unrecorded cfg p xaErr ⟨false, true⟩ hot
      (h.nrPages _ 0 hot (Nat.zero_lt_of_lt hslot.2)) rfl ((h.node hot).exists_freePages ⟨hslot, hbit⟩)
    rw [sswapAddMapping_none hr hm, hplace] at hw
    simp only [Except.map, Except.ok.injEq, Prod.mk.injEq] at hw
    obtain ⟨rfl, rfl, rfl⟩ := hw
    exact ⟨rfl, hm⟩
  · cases hw

/-- A fallback of a mapped pageid releases its slot twice. -/
theorem fallback_mapped (h : s.Consistent cfg) (hr : cfg.InRange p) (hfull : PreferredFull cfg s p)
    {x : ℕ} (hslot : cfg.HasSlot (otherNode p) x) (hm : s.mappingOf p = some (otherNode p, x))
    {ret type : ℕ} {s' : Scheduler} (hw : sswapSchedulerWrite cfg xaErr p s = .ok (ret, type, s')) :
    ret = 0 ∧ s'.mappingOf p = s.mappingOf p ∧ ¬ s'.Consistent cfg := by
  have hot := otherNode_lt p
  have hb : x % remoteAddressSpacePages < remoteAddressSpacePages := Nat.mod_lt _ (by simp)
  set s₁ := s.clearBit (otherNode p) (x / remoteAddressSpacePages) (x % remoteAddressSpacePages)
    with hs₁
  have hrep := h.clearBit hm
  have hfull₁ : ∀ g < cfg.nrRemoteMaps (preferredNode p),
      (s₁.remoteMap (preferredNode p) g).freePages = 0 := by
    intro g hg
    rw [hs₁, Scheduler.clearBit_remoteMap, if_neg fun h => otherNode_ne p h.1.symm]
    exact (h.node (preferredNode_lt p)).freePages_eq_zero (preferredNode_lt p) hfull.freeSlots hg
  rw [sswapSchedulerWrite_noRoom (sswapAddMapping_some hr hm hslot) hfull₁] at hw
  split at hw
  · rw [sswapAddMapping_some hr (s := s₁) hm hslot] at hw
    have hnr := hrep.nrPages (otherNode p) 0 hot (Nat.zero_lt_of_lt hslot.2)
    obtain ⟨g, hplace⟩ := placePage_unrecorded cfg p xaErr ⟨false, true⟩ hot
      (s := s₁.clearBit (otherNode p) (x / remoteAddressSpacePages) (x % remoteAddressSpacePages))
      (by rw [Scheduler.clearBit_remoteMap]; split <;> exact hnr) rfl
      ⟨_, hslot.2, by simp [Scheduler.clearBit_remoteMap]⟩
    rw [hplace] at hw
    simp only [Except.map, Except.ok.injEq, Prod.mk.injEq] at hw
    obtain ⟨rfl, rfl, rfl⟩ := hw
    refine ⟨rfl, rfl, not_consistent_of_released hot hslot.2 hb ?_
      (hrep.freePages _ _ hot hslot.2) g⟩
    simp [Scheduler.clearBit_remoteMap]
  · cases hw

/-- What a fallback does when it returns: its offset is `0` whichever slot it
reserved, the mapping of the pageid is the old one, and if there was an old one
the free pages are no longer counted right. -/
theorem fallback_result (h : s.Consistent cfg) (hr : cfg.InRange p) (hfull : PreferredFull cfg s p)
    (hother : OtherAvailable cfg s p) {ret type : ℕ} {s' : Scheduler}
    (hw : sswapSchedulerWrite cfg xaErr p s = .ok (ret, type, s')) :
    ret = 0 ∧ s'.mappingOf p = s.mappingOf p ∧ (s.mappingOf p ≠ none → ¬ s'.Consistent cfg) := by
  cases hm : s.mappingOf p with
  | none =>
    have hfree : ∃ x, cfg.HasSlot (otherNode p) x ∧ s.bit (otherNode p) x = false := by
      rcases hother with hfree | ⟨x, hx⟩
      · exact hfree
      · rw [hm] at hx
        cases hx
    obtain ⟨hret, hm'⟩ := fallback_unmapped h hr hfull hfree hm hw
    exact ⟨hret, hm', fun hne => absurd rfl hne⟩
  | some l =>
    obtain ⟨t, x⟩ := l
    have hslot := h.entries p t x hm
    obtain rfl := hfull.node_eq hslot hm
    obtain ⟨hret, hm', hbad⟩ := fallback_mapped h hr hfull hslot hm hw
    exact ⟨hret, hm'.trans hm, fun _ => hbad⟩

/-- A fallback is never correct. -/
theorem fallback_never_correct (h : s.Consistent cfg) (hr : cfg.InRange p)
    (hfull : PreferredFull cfg s p) (hother : OtherAvailable cfg s p) : ¬ FallbackCorrect cfg s p := by
  rintro ⟨x, s', hw, _, hm', _, hcon⟩
  obtain ⟨_, hm, hbad⟩ := fallback_result h hr hfull hother hw
  refine hbad ?_ hcon
  rw [← hm, hm']
  simp

theorem filled_preferredFull : PreferredFull smallNodes (Scheduler.filled (· == 0)) 32768 := by
  intro x _
  exact ⟨rfl, by simp [Scheduler.filled_mappingOf]⟩

theorem filled_otherAvailable : OtherAvailable smallNodes (Scheduler.filled (· == 0)) 32768 :=
  .inl ⟨0, by decide, rfl⟩

theorem fallback_never_correct_filled :
    ¬ FallbackCorrect smallNodes (Scheduler.filled (· == 0)) 32768 :=
  fallback_never_correct (Scheduler.filled_consistent _) (by decide) filled_preferredFull
    filled_otherAvailable

/-- Node 0 is full, node 1 empty, and pageid 32768 has no mapping: the fallback
returns slot 0 of node 1 and does not record it. -/
theorem fallback_counterexample :
    ¬ ∀ (cfg : Config) (s : Scheduler) (p : ℕ), s.Consistent cfg → cfg.InRange p →
      PreferredFull cfg s p → OtherAvailable cfg s p → FallbackCorrect cfg s p := by
  intro h
  have hcon := Scheduler.filled_consistent (· == 0)
  obtain ⟨x, s', hw, _, hm', _⟩ := h smallNodes (Scheduler.filled (· == 0)) 32768 hcon (by decide)
    filled_preferredFull filled_otherAvailable
  obtain ⟨_, hm, _⟩ := fallback_result hcon (by decide) filled_preferredFull filled_otherAvailable hw
  rw [hm', Scheduler.filled_mappingOf] at hm
  simp at hm

end Multiswap
