import Multiswap.Scheduler.Invariant

/-!
# Selecting and recording a slot

`sswap_select_slot` either takes the lowest zero bit of the first group that has
free pages or reports a full node, and `sswap_add_mapping` releases the old slot,
selects a new one and records it. One lemma for each, for callers to use.
-/

namespace Multiswap

open BitSearch (firstZero)

variable {cfg : Config} {s : Scheduler} {t p : ℕ} {flags : RemoteMappingFlags} {xaErr : Bool}

/-- The first group with free pages from group `i` on, or none among the next `fuel`. -/
theorem selectLoop_spec (s : Scheduler) (t nrPages : ℕ) (flags : RemoteMappingFlags) (fuel i : ℕ) :
    (∃ g, i ≤ g ∧ g < i + fuel ∧ (∀ g', i ≤ g' → g' < g → (s.remoteMap t g').freePages = 0) ∧
      (s.remoteMap t g).freePages ≠ 0 ∧
      selectLoop s t nrPages flags fuel i (u32 (i * nrPages)) =
        (firstZero (s.remoteMap t g).mapping nrPages + u32 (g * nrPages),
          { flags with mappingSuccess := true },
          s.setBit t g (firstZero (s.remoteMap t g).mapping nrPages))) ∨
    ((∀ g, i ≤ g → g < i + fuel → (s.remoteMap t g).freePages = 0) ∧
      selectLoop s t nrPages flags fuel i (u32 (i * nrPages)) =
        (0, { flags with mappingFull := true }, s)) := by
  induction fuel generalizing i with
  | zero => exact .inr ⟨fun g h h' => by omega, rfl⟩
  | succ fuel ih =>
    by_cases hfree : (s.remoteMap t i).freePages = 0
    · have hprobe : s.probe t i nrPages = none := by simp [Scheduler.probe_eq, hfree]
      have hoffset : u32 (u32 (i * nrPages) + nrPages) = u32 ((i + 1) * nrPages) := by
        rw [u32, u32, u32, Nat.mod_add_mod, Nat.add_mul, Nat.one_mul]
      have hloop : selectLoop s t nrPages flags (fuel + 1) i (u32 (i * nrPages)) =
          selectLoop s t nrPages flags fuel (i + 1) (u32 ((i + 1) * nrPages)) := by
        rw [selectLoop, hprobe]
        simp only [hoffset]
      rw [hloop]
      rcases ih (i + 1) with ⟨g, hig, hg, hbefore, hne, heq⟩ | ⟨hall, heq⟩
      · refine .inl ⟨g, by omega, by omega, fun g' h h' => ?_, hne, heq⟩
        by_cases hgi : g' = i
        · rw [hgi, hfree]
        · exact hbefore g' (by omega) h'
      · refine .inr ⟨fun g h h' => ?_, heq⟩
        by_cases hgi : g = i
        · rw [hgi, hfree]
        · exact hall g (by omega) (by omega)
    · refine .inl ⟨i, le_rfl, by omega, fun g' h h' => by omega, hfree, ?_⟩
      have hprobe : s.probe t i nrPages = some (firstZero (s.remoteMap t i).mapping nrPages,
          s.setBit t i (firstZero (s.remoteMap t i).mapping nrPages)) := by
        simp [Scheduler.probe_eq, hfree]
      rw [selectLoop, hprobe]

/-- `sswap_select_slot` on a node with a free page: the first group that has one. -/
theorem sswapSelectSlot_found (flags : RemoteMappingFlags) (ht : t < 2)
    (hnr : (s.remoteMap t 0).nrPages = remoteAddressSpacePages)
    (hex : ∃ g < cfg.nrRemoteMaps t, (s.remoteMap t g).freePages ≠ 0) :
    ∃ g < cfg.nrRemoteMaps t, (∀ g' < g, (s.remoteMap t g').freePages = 0) ∧
      (s.remoteMap t g).freePages ≠ 0 ∧
      sswapSelectSlot cfg t flags s =
        .ok (firstZero (s.remoteMap t g).mapping remoteAddressSpacePages +
            u32 (g * remoteAddressSpacePages), { flags with mappingSuccess := true },
          s.setBit t g (firstZero (s.remoteMap t g).mapping remoteAddressSpacePages)) := by
  obtain ⟨g₀, hg₀, hfree₀⟩ := hex
  have hmap := mapAt_ok ht (by omega : 0 < cfg.nrRemoteMaps t)
  rcases selectLoop_spec s t remoteAddressSpacePages flags (cfg.nrRemoteMaps t) 0 with
    ⟨g, _, hg, hbefore, hne, heq⟩ | ⟨hall, _⟩
  · refine ⟨g, by omega, fun g' h => hbefore g' (Nat.zero_le _) h, hne, ?_⟩
    simp only [sswapSelectSlot, hmap, hnr, bind, Except.bind, pure, Except.pure]
    rw [Nat.zero_mul] at heq
    exact congrArg Except.ok heq
  · exact absurd (hall g₀ (Nat.zero_le _) (by omega)) hfree₀

/-- `sswap_select_slot` on a node without a free page. -/
theorem sswapSelectSlot_full (ht : t < 2) (hpos : 0 < cfg.nrRemoteMaps t)
    (hall : ∀ g < cfg.nrRemoteMaps t, (s.remoteMap t g).freePages = 0) :
    sswapSelectSlot cfg t flags s = .ok (0, { flags with mappingFull := true }, s) := by
  have hmap := mapAt_ok ht hpos
  rcases selectLoop_spec s t (s.remoteMap t 0).nrPages flags (cfg.nrRemoteMaps t) 0 with
    ⟨g, _, hg, _, hne, _⟩ | ⟨_, heq⟩
  · exact absurd (hall g (by omega)) hne
  · simp only [sswapSelectSlot, hmap, bind, Except.bind, pure, Except.pure]
    rw [Nat.zero_mul] at heq
    exact congrArg Except.ok heq

/-- `sswap_add_mapping` once the old slot is released. -/
def placePage (cfg : Config) (xaErr : Bool) (type pageid : ℕ) (flags : RemoteMappingFlags)
    (s : Scheduler) : Except Fault (ℕ × RemoteMappingFlags × Scheduler) := do
  let (slot, flags, s) ← sswapSelectSlot cfg type flags s
  if flags.mappingFull then
    return (0, flags, s)
  if xaErr then
    if cfg.debugVm then throw .bug
    return (u64 (slot <<< pageShift), flags, s)
  return (u64 (slot <<< pageShift), flags,
    s.xaStore (pageid >>> remoteAddressSpaceShift) pageid (slotEntry type slot))

/-- A pageid beyond the address spaces is not refused: `remote_spaces` is indexed with it. -/
theorem sswapAddMapping_outOfRange (hr : ¬ cfg.InRange p) :
    sswapAddMapping cfg xaErr t p flags s =
      .error (.remoteSpaces (p >>> remoteAddressSpaceShift)) := by
  simp only [sswapAddMapping, spaceOf_error hr, bind, Except.bind]

/-- `sswap_add_mapping` releases the old slot, if there is one, and places the page. -/
theorem sswapAddMapping_eq (hr : cfg.InRange p) :
    sswapAddMapping cfg xaErr t p flags s =
      (if s.xaLoad (p >>> remoteAddressSpaceShift) p ≠ 0 then
        releaseOld cfg (s.xaLoad (p >>> remoteAddressSpaceShift) p) s else .ok s) >>=
      placePage cfg xaErr t p flags := by
  simp only [sswapAddMapping, spaceOf_ok hr, bind, Except.bind, pure, Except.pure]
  split
  · rfl
  · rfl

/-- `sswap_add_mapping` of a pageid without a mapping. -/
theorem sswapAddMapping_none (hr : cfg.InRange p) (hm : s.mappingOf p = none) :
    sswapAddMapping cfg xaErr t p flags s = placePage cfg xaErr t p flags s := by
  have hz : s.xaLoad (p >>> remoteAddressSpaceShift) p = 0 := decodeEntry_eq_none.mp hm
  rw [sswapAddMapping_eq hr, if_neg (not_not.mpr hz)]
  rfl

/-- `sswap_add_mapping` of a mapped pageid releases the old slot first. -/
theorem sswapAddMapping_some (hr : cfg.InRange p) {t₀ x₀ : ℕ} (hm : s.mappingOf p = some (t₀, x₀))
    (hslot : cfg.HasSlot t₀ x₀) :
    sswapAddMapping cfg xaErr t p flags s = placePage cfg xaErr t p flags
      (s.clearBit t₀ (x₀ / remoteAddressSpacePages) (x₀ % remoteAddressSpacePages)) := by
  have hne : s.xaLoad (p >>> remoteAddressSpaceShift) p ≠ 0 := by
    intro h
    rw [Scheduler.mappingOf, decodeEntry_eq_none.mpr h] at hm
    cases hm
  rw [sswapAddMapping_eq hr, if_pos hne, releaseOld_ok hm hslot]
  rfl

/-- Nothing is recorded while `mapping_full` is set, by this selection or before it. -/
theorem placePage_full {slot : ℕ} {s' : Scheduler} {flags' : RemoteMappingFlags}
    (h : sswapSelectSlot cfg t flags s = .ok (slot, flags', s')) (hf : flags'.mappingFull = true) :
    placePage cfg xaErr t p flags s = .ok (0, flags', s') := by
  simp only [placePage, h, bind, Except.bind, hf, if_true, pure, Except.pure]

/-- The selected slot is recorded. -/
theorem placePage_found {slot : ℕ} {s' : Scheduler} {flags' : RemoteMappingFlags}
    (h : sswapSelectSlot cfg t flags s = .ok (slot, flags', s')) (hf : flags'.mappingFull = false) :
    placePage cfg false t p flags s = .ok (u64 (slot <<< pageShift), flags',
      s'.xaStore (p >>> remoteAddressSpaceShift) p (slotEntry t slot)) := by
  simp only [placePage, h, bind, Except.bind, hf, Bool.false_eq_true, if_false, pure, Except.pure]

/-- An error of `xa_store`, without `CONFIG_DEBUG_VM`: the slot stays reserved and is returned. -/
theorem placePage_unstored {slot : ℕ} {s' : Scheduler} {flags' : RemoteMappingFlags}
    (h : sswapSelectSlot cfg t flags s = .ok (slot, flags', s')) (hf : flags'.mappingFull = false)
    (hdebug : cfg.debugVm = false) :
    placePage cfg true t p flags s = .ok (u64 (slot <<< pageShift), flags', s') := by
  simp only [placePage, h, bind, Except.bind, hf, hdebug, Bool.false_eq_true, if_false, if_true, pure,
    Except.pure]

/-- The node of the parity of a pageid, which `sswap_scheduler_write` tries first. -/
def preferredNode (pageid : ℕ) : ℕ := pageid % 2

/-- The node that it falls back to. -/
def otherNode (pageid : ℕ) : ℕ := 1 - pageid % 2

theorem preferredNode_lt (p : ℕ) : preferredNode p < 2 := Nat.mod_lt _ (by decide)

theorem otherNode_lt (p : ℕ) : otherNode p < 2 := by
  show 1 - p % 2 < 2
  omega

theorem otherNode_ne (p : ℕ) : otherNode p ≠ preferredNode p := by
  show 1 - p % 2 ≠ p % 2
  omega

/-- The two branches of `sswap_scheduler_write` differ in the nodes only. -/
theorem sswapSchedulerWrite_eq (cfg : Config) (xaErr : Bool) (p : ℕ) (s : Scheduler) :
    sswapSchedulerWrite cfg xaErr p s = (do
      let (ret, flags, s) ← sswapAddMapping cfg xaErr (preferredNode p) p .clear s
      if flags.mappingFull then
        let (ret, _, s) ← sswapAddMapping cfg xaErr (otherNode p) p flags s
        return (ret, otherNode p, s)
      return (ret, preferredNode p, s)) := by
  rcases Nat.mod_two_eq_zero_or_one p with hp | hp <;>
    simp [sswapSchedulerWrite, preferredNode, otherNode, hp]

/-- The first attempt faults. -/
theorem sswapSchedulerWrite_error {e : Fault}
    (h : sswapAddMapping cfg xaErr (preferredNode p) p .clear s = .error e) :
    sswapSchedulerWrite cfg xaErr p s = .error e := by
  simp only [sswapSchedulerWrite_eq, h, bind, Except.bind]

/-- The first attempt places the page. -/
theorem sswapSchedulerWrite_first {ret : ℕ} {flags' : RemoteMappingFlags} {s' : Scheduler}
    (h : sswapAddMapping cfg xaErr (preferredNode p) p .clear s = .ok (ret, flags', s'))
    (hf : flags'.mappingFull = false) :
    sswapSchedulerWrite cfg xaErr p s = .ok (ret, preferredNode p, s') := by
  simp only [sswapSchedulerWrite_eq, h, bind, Except.bind, hf, Bool.false_eq_true, if_false, pure,
    Except.pure]

/-- The first attempt finds the preferred node full: the second gets its state and its flags. -/
theorem sswapSchedulerWrite_second {ret₁ : ℕ} {flags₁ : RemoteMappingFlags} {s₁ : Scheduler}
    (h : sswapAddMapping cfg xaErr (preferredNode p) p .clear s = .ok (ret₁, flags₁, s₁))
    (hf : flags₁.mappingFull = true) :
    sswapSchedulerWrite cfg xaErr p s =
      (sswapAddMapping cfg xaErr (otherNode p) p flags₁ s₁).map
        fun r => (r.1, otherNode p, r.2.2) := by
  simp only [sswapSchedulerWrite_eq, h, bind, Except.bind, hf, if_true]
  cases sswapAddMapping cfg xaErr (otherNode p) p flags₁ s₁ <;> rfl

end Multiswap
