import Multiswap.Scheduler.FirstFree

/-!
# Relocating a page

`sswap_add_mapping` with a free slot on the requested node: the old slot is
released, the least free slot is reserved and recorded, and nothing else changes.
The search adds up the group sizes in an `unsigned int`, so what is returned and
recorded is the slot modulo `2 ^ 32`.
-/

namespace Multiswap

open BitSearch (zeroCount firstZero)

variable {cfg : Config} {held : ℕ → Option (ℕ × ℕ)} {s s' : Scheduler} {t p x : ℕ}
  {flags : RemoteMappingFlags} {xaErr : Bool}

/-! ## The released state -/

/-- The state in which `sswap_add_mapping` looks for a slot: the old slot of the
pageid, if it has one, is released. -/
def Scheduler.released (s : Scheduler) (p : ℕ) : Scheduler :=
  match s.mappingOf p with
  | none => s
  | some (t, x) => s.clearBit t (x / remoteAddressSpacePages) (x % remoteAddressSpacePages)

@[simp] theorem released_mappingOf (s : Scheduler) (p q : ℕ) :
    (s.released p).mappingOf q = s.mappingOf q := by
  unfold Scheduler.released
  split <;> rfl

theorem released_of_none (h : s.mappingOf p = none) : s.released p = s := by
  rw [Scheduler.released, h]

/-- The bit of the old slot is clear, all others are as before. -/
theorem released_bit (s : Scheduler) (p u y : ℕ) :
    (s.released p).bit u y = if s.mappingOf p = some (u, y) then false else s.bit u y := by
  cases hm : s.mappingOf p with
  | none => rw [released_of_none hm, if_neg (by simp)]
  | some l =>
    obtain ⟨t, x⟩ := l
    have hmod : x % remoteAddressSpacePages < remoteAddressSpacePages := Nat.mod_lt _ (by simp)
    simp only [Scheduler.released, hm]
    rw [s.clearBit_bit hmod, slot_split]
    simp only [Option.some.injEq, Prod.mk.injEq, eq_comm]

theorem released_repInv (h : s.Consistent cfg) (p : ℕ) :
    RepInv cfg (Function.update s.mappingOf p none) (s.released p) := by
  cases hm : s.mappingOf p with
  | none =>
    rw [released_of_none hm, ← hm, Function.update_eq_self]
    exact h
  | some l =>
    obtain ⟨t, x⟩ := l
    have hclear := h.clearBit hm
    rwa [Scheduler.released, hm]

/-- `sswap_add_mapping` places the page in the released state. -/
theorem sswapAddMapping_released (h : s.Consistent cfg) (hr : cfg.InRange p) :
    sswapAddMapping cfg xaErr t p flags s = placePage cfg xaErr t p flags (s.released p) := by
  cases hm : s.mappingOf p with
  | none => rw [sswapAddMapping_none hr hm, released_of_none hm]
  | some l =>
    obtain ⟨u, y⟩ := l
    rw [sswapAddMapping_some hr hm (h.entries p u y hm), Scheduler.released, hm]

/-! ## The relocated state -/

/-- The state after a relocation to slot `x` of node `t`. -/
def Scheduler.relocated (s : Scheduler) (p t x : ℕ) : Scheduler :=
  ((s.released p).setBit t (x / remoteAddressSpacePages) (x % remoteAddressSpacePages)).xaStore
    (p >>> remoteAddressSpaceShift) p (slotEntry t (u32 x))

theorem sswapAddMapping_least (h : s.Consistent cfg) (hr : cfg.InRange p)
    (hx : IsLeast (freeSlots cfg (s.released p) t) x) :
    sswapAddMapping cfg false t p .clear s =
      .ok (u64 (u32 x <<< pageShift), ⟨true, false⟩, s.relocated p t x) := by
  rw [sswapAddMapping_released h hr,
    placePage_found (((released_repInv h p).node hx.1.1.1).sswapSelectSlot_least .clear hx) rfl]
  rfl

theorem relocated_mappingOf (s : Scheduler) (p x q : ℕ) (ht : t < 2) :
    (s.relocated p t x).mappingOf q = if q = p then some (t, u32 x) else s.mappingOf q := by
  have hsmall : u32 x < 2 ^ 59 := (Nat.mod_lt _ (by decide)).trans (by decide)
  have hbits : (s.relocated p t x).mappingOf q =
      if q = p then decodeEntry (slotEntry t (u32 x)) else (s.released p).mappingOf q :=
    Scheduler.xaStore_mappingOf _ _ _ _
  rw [hbits, decodeEntry_slotEntry (by omega) hsmall, released_mappingOf]

theorem relocated_bit (s : Scheduler) (p t x u y : ℕ) :
    (s.relocated p t x).bit u y =
      if (u, y) = (t, x) then true else if s.mappingOf p = some (u, y) then false else s.bit u y := by
  have hmod : x % remoteAddressSpacePages < remoteAddressSpacePages := Nat.mod_lt _ (by simp)
  have hbits : (s.relocated p t x).bit u y =
      if u = t ∧ y = x / remoteAddressSpacePages * remoteAddressSpacePages + x % remoteAddressSpacePages
        then true else (s.released p).bit u y :=
    (s.released p).setBit_bit hmod u y
  rw [hbits, slot_split, released_bit]
  simp only [Prod.mk.injEq]

/-- A relocation to a slot that an `unsigned int` can count keeps the invariant. -/
theorem relocated_consistent (h : s.Consistent cfg) (hr : cfg.InRange p)
    (hx : x ∈ freeSlots cfg (s.released p) t) (hsmall : x < 2 ^ 32) :
    (s.relocated p t x).Consistent cfg := by
  obtain ⟨hslot, hbit⟩ := hx
  obtain ⟨ht, hg⟩ := hslot
  have hmod : x % remoteAddressSpacePages < remoteAddressSpacePages := Nat.mod_lt _ (by simp)
  have hset := (released_repInv h p).setBit (Function.update_self p none s.mappingOf) hr ht hg hmod
    (by rwa [slot_split])
  have hstored := hset.xaStore ⟨ht, hg⟩ (hsmall.trans (by decide)) p
  rw [slot_split, Function.update_idem] at hstored
  have hheld : (s.relocated p t x).mappingOf = Function.update s.mappingOf p (some (t, x)) := by
    funext q
    rw [relocated_mappingOf s p x q ht, u32_of_lt hsmall, Function.update_apply]
  rw [Scheduler.Consistent, hheld, Scheduler.relocated, u32_of_lt hsmall]
  exact hstored

/-- In a group whose counter is right before and after, the counter changes as the bits do. -/
theorem RepInv.counts {held' : ℕ → Option (ℕ × ℕ)} (h : RepInv cfg held s) (h' : RepInv cfg held' s')
    {u g : ℕ} (hu : u < maxRemoteNodes) (hg : g < cfg.nrRemoteMaps u) :
    ((s'.remoteMap u g).freePages : ℤ) - (s.remoteMap u g).freePages =
      zeroCount (s'.remoteMap u g).mapping remoteAddressSpacePages -
        zeroCount (s.remoteMap u g).mapping remoteAddressSpacePages := by
  rw [h.freePages u g hu hg, h'.freePages u g hu hg]

/-- `sswap_add_mapping` has moved the pageid to slot `x` of node `t`, and done nothing else. -/
structure Relocates (cfg : Config) (s : Scheduler) (t p x : ℕ) (s' : Scheduler) : Prop where
  result : sswapAddMapping cfg false t p .clear s = .ok (u64 (x <<< pageShift), ⟨true, false⟩, s')
  mapping : s'.mappingOf p = some (t, x)
  reserved : s'.bit t x = true
  oldFree : ∀ u y, s.mappingOf p = some (u, y) → (u, y) ≠ (t, x) → s'.bit u y = false
  otherBits : ∀ u y, (u, y) ≠ (t, x) → s.mappingOf p ≠ some (u, y) → s'.bit u y = s.bit u y
  otherMappings : ∀ q, q ≠ p → s'.mappingOf q = s.mappingOf q
  counts : ∀ u g, u < maxRemoteNodes → g < cfg.nrRemoteMaps u →
    ((s'.remoteMap u g).freePages : ℤ) - (s.remoteMap u g).freePages =
      zeroCount (s'.remoteMap u g).mapping remoteAddressSpacePages -
        zeroCount (s.remoteMap u g).mapping remoteAddressSpacePages
  consistent : s'.Consistent cfg

/-- The least free slot, if an `unsigned int` can count it, is where the page goes. -/
theorem relocates_of_small (h : s.Consistent cfg) (hr : cfg.InRange p)
    (hx : IsLeast (freeSlots cfg (s.released p) t) x) (hsmall : x < 2 ^ 32) :
    Relocates cfg s t p x (s.relocated p t x) := by
  have hcon := relocated_consistent h hr hx.1 hsmall
  have ht : t < 2 := hx.1.1.1
  constructor
  · rw [sswapAddMapping_least h hr hx, u32_of_lt hsmall]
  · rw [relocated_mappingOf s p x p ht, if_pos rfl, u32_of_lt hsmall]
  · rw [relocated_bit, if_pos rfl]
  · intro u y hm hne
    rw [relocated_bit, if_neg hne, if_pos hm]
  · intro u y hne hm
    rw [relocated_bit, if_neg hne, if_neg hm]
  · intro q hq
    rw [relocated_mappingOf s p x q ht, if_neg hq]
  · intro u g hu hg
    exact h.counts hcon hu hg
  · exact hcon

/-- A slot that an `unsigned int` cannot count is not the one that is recorded. -/
theorem small_of_relocates (h : s.Consistent cfg) (hr : cfg.InRange p)
    (hx : IsLeast (freeSlots cfg (s.released p) t) x) (hrel : Relocates cfg s t p x s') :
    x < 2 ^ 32 := by
  have hresult := hrel.result
  rw [sswapAddMapping_least h hr hx] at hresult
  simp only [Except.ok.injEq, Prod.mk.injEq, true_and] at hresult
  have hm := hrel.mapping
  rw [← hresult.2, relocated_mappingOf s p x p hx.1.1.1, if_pos rfl] at hm
  simp only [Option.some.injEq, Prod.mk.injEq, true_and] at hm
  rw [← hm]
  exact Nat.mod_lt _ (by decide)

/-- With a free slot on the node once the old one is released, the page is
relocated to the least such slot exactly if an `unsigned int` can count it. -/
theorem relocates_iff (h : s.Consistent cfg) (hr : cfg.InRange p)
    (hx : IsLeast (freeSlots cfg (s.released p) t) x) :
    (∃ s', Relocates cfg s t p x s') ↔ x < 2 ^ 32 := by
  constructor
  · rintro ⟨s', hrel⟩
    exact small_of_relocates h hr hx hrel
  · intro hsmall
    exact ⟨_, relocates_of_small h hr hx hsmall⟩

/-- A page moves from slot 7 of node 0 to the least free slot of node 1, past a full group. -/
theorem relocates_iff_spilled : Scheduler.spilled.mappingOf 20000 = some (0, 7) ∧
    ∃ s', Relocates twoGroups Scheduler.spilled 1 20000 16387 s' := by
  have hold : Scheduler.spilled.mappingOf 20000 = some (0, 7) :=
    Scheduler.spilled_mappingOf.mpr (.inl ⟨rfl, rfl, rfl⟩)
  have hleast : IsLeast (freeSlots twoGroups (Scheduler.spilled.released 20000) 1) 16387 := by
    refine Scheduler.spilled_least fun x => ?_
    rw [released_bit, hold, if_neg (by simp)]
  exact ⟨hold, (relocates_iff Scheduler.spilled_consistent (by decide) hleast).mpr (by decide)⟩

theorem packed_least :
    IsLeast (freeSlots wideNodes (Scheduler.packed.released (2 ^ 32)) 0) (2 ^ 32) := by
  rw [released_of_none (by simp [Scheduler.packed_mappingOf])]
  exact Scheduler.packed_freeSlots

/-- The first `2 ^ 32` slots of node 0 are taken and pageid `2 ^ 32` has none: it
gets slot `2 ^ 32`, but the offset and the mapping are those of slot 0. -/
theorem relocates_counterexample :
    (∃ s', sswapAddMapping wideNodes false 0 (2 ^ 32) .clear Scheduler.packed =
        .ok (0, ⟨true, false⟩, s') ∧ s'.bit 0 (2 ^ 32) = true ∧
      s'.mappingOf (2 ^ 32) = some (0, 0) ∧ s'.mappingOf 0 = some (0, 0)) ∧
    ¬ ∀ (cfg : Config) (s : Scheduler) (t p x : ℕ), s.Consistent cfg → cfg.InRange p →
      IsLeast (freeSlots cfg (s.released p) t) x → ∃ s', Relocates cfg s t p x s' := by
  have hr : wideNodes.InRange (2 ^ 32) := by decide
  constructor
  · refine ⟨_, sswapAddMapping_least Scheduler.packed_consistent hr packed_least, ?_, ?_, ?_⟩
    · rw [relocated_bit, if_pos rfl]
    · rw [relocated_mappingOf _ _ _ _ (by decide)]
      rfl
    · rw [relocated_mappingOf _ _ _ _ (by decide), Scheduler.packed_mappingOf]
      rfl
  · intro h
    obtain ⟨s', hrel⟩ := h _ _ 0 (2 ^ 32) _ Scheduler.packed_consistent hr packed_least
    exact absurd (small_of_relocates Scheduler.packed_consistent hr packed_least hrel) (by decide)

end Multiswap
