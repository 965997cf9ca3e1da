import Mathlib.Order.Nat
import Multiswap.Scheduler.Select

/-!
# The least free slot

`sswap_select_slot` skips the groups that have no free pages and takes the lowest
zero bit of the next one. If the counters are right this is the least free slot of
the node. It is returned modulo `2 ^ 32`, since the search adds up the sizes of
the groups in an `unsigned int`.
-/

namespace Multiswap

open BitSearch (firstZero)

variable {cfg : Config} {s s' : Scheduler} {t x : ℕ} {flags : RemoteMappingFlags}

/-- The free slots of a node. -/
def freeSlots (cfg : Config) (s : Scheduler) (t : ℕ) : Set ℕ :=
  {x | cfg.HasSlot t x ∧ s.bit t x = false}

instance : DecidablePred (· ∈ freeSlots cfg s t) := fun _ =>
  inferInstanceAs (Decidable (_ ∧ _))

theorem freeSlots_eq_empty : freeSlots cfg s t = ∅ ↔ ∀ x, cfg.HasSlot t x → s.bit t x = true := by
  simp only [Set.eq_empty_iff_forall_notMem, freeSlots, Set.mem_ofPred_eq, not_and,
    Bool.not_eq_false]

namespace NodeCounts

/-- The lowest zero bit of the first group with free pages is the least free slot. -/
theorem isLeast_freeSlots (h : NodeCounts cfg s t) (ht : t < 2) {g : ℕ} (hg : g < cfg.nrRemoteMaps t)
    (hbefore : ∀ g' < g, (s.remoteMap t g').freePages = 0)
    (hfree : (s.remoteMap t g).freePages ≠ 0) :
    IsLeast (freeSlots cfg s t) (g * remoteAddressSpacePages +
      firstZero (s.remoteMap t g).mapping remoteAddressSpacePages) := by
  constructor
  · exact ⟨hasSlot_group ht hg (h.firstZero_lt hg hfree), h.bit_firstZero hg hfree⟩
  · rintro y ⟨-, hbit⟩
    by_contra hlt
    have hmod : y % remoteAddressSpacePages < remoteAddressSpacePages := Nat.mod_lt _ (by simp)
    have hb := h.firstZero_lt hg hfree
    have hset : s.bit t (y / remoteAddressSpacePages * remoteAddressSpacePages +
        y % remoteAddressSpacePages) = true := by
      rcases Nat.lt_or_ge (y / remoteAddressSpacePages) g with hyg | hyg
      · exact h.bits_of_full (hyg.trans hg) (hbefore _ hyg) hmod
      · have hgroup : y / remoteAddressSpacePages = g := by
          simp only [remoteAddressSpacePages_eq] at *
          omega
        rw [hgroup]
        apply h.bit_below_firstZero hg hfree
        simp only [remoteAddressSpacePages_eq] at *
        omega
    rw [slot_split, hbit] at hset
    cases hset

/-- A node with a free slot has a group with free pages. -/
theorem exists_freePages (h : NodeCounts cfg s t) (hx : x ∈ freeSlots cfg s t) :
    ∃ g < cfg.nrRemoteMaps t, (s.remoteMap t g).freePages ≠ 0 := by
  obtain ⟨⟨-, hg⟩, hbit⟩ := hx
  refine ⟨x / remoteAddressSpacePages, hg, (h.freePages_ne_zero_iff hg).mpr
    ⟨x % remoteAddressSpacePages, Nat.mod_lt _ (by simp), ?_⟩⟩
  rwa [slot_split]

/-- A node without a free slot has no free pages. -/
theorem freePages_eq_zero (h : NodeCounts cfg s t) (ht : t < 2) (hfull : freeSlots cfg s t = ∅)
    {g : ℕ} (hg : g < cfg.nrRemoteMaps t) : (s.remoteMap t g).freePages = 0 := by
  by_contra hfree
  obtain ⟨b, hb, hbit⟩ := (h.freePages_ne_zero_iff hg).mp hfree
  have hmem : g * remoteAddressSpacePages + b ∈ freeSlots cfg s t := ⟨hasSlot_group ht hg hb, hbit⟩
  rw [hfull] at hmem
  exact hmem

/-- `sswap_select_slot` reserves the least free slot of the node, and returns it
as far as an `unsigned int` can count it. -/
theorem sswapSelectSlot_least (h : NodeCounts cfg s t) (flags : RemoteMappingFlags)
    (hx : IsLeast (freeSlots cfg s t) x) :
    sswapSelectSlot cfg t flags s = .ok (u32 x, { flags with mappingSuccess := true },
      s.setBit t (x / remoteAddressSpacePages) (x % remoteAddressSpacePages)) := by
  obtain ⟨⟨ht, hgx⟩, -⟩ := hx.1
  have hnr := h.nrPages 0 (Nat.zero_lt_of_lt hgx)
  obtain ⟨g, hg, hbefore, hfree, hsel⟩ := sswapSelectSlot_found flags ht hnr (h.exists_freePages hx.1)
  have hb := h.firstZero_lt hg hfree
  have hslot := hx.unique (h.isLeast_freeSlots ht hg hbefore hfree)
  have hgroup : x / remoteAddressSpacePages = g := by
    simp only [remoteAddressSpacePages_eq] at *
    omega
  have hbit : x % remoteAddressSpacePages =
      firstZero (s.remoteMap t g).mapping remoteAddressSpacePages := by
    simp only [remoteAddressSpacePages_eq] at *
    omega
  have hoffset : firstZero (s.remoteMap t g).mapping remoteAddressSpacePages +
      u32 (g * remoteAddressSpacePages) = u32 x := by
    simp only [u32, remoteAddressSpacePages_eq] at *
    omega
  rw [hsel, hgroup, hbit, hoffset]

end NodeCounts

/-- `sswap_select_slot`, called with clear flags, has taken slot `x` and nothing else. -/
structure Takes (cfg : Config) (s : Scheduler) (t x : ℕ) (s' : Scheduler) : Prop where
  result : sswapSelectSlot cfg t .clear s = .ok (x, ⟨true, false⟩, s')
  bits : ∀ u y, s'.bit u y = if u = t ∧ y = x then true else s.bit u y
  count : (s'.remoteMap t (x / remoteAddressSpacePages)).freePages + 1 =
    (s.remoteMap t (x / remoteAddressSpacePages)).freePages
  otherCounts : ∀ u g, ¬ (u = t ∧ g = x / remoteAddressSpacePages) →
    (s'.remoteMap u g).freePages = (s.remoteMap u g).freePages

/-- What a first fit is: the least free slot is taken or, if there is none, the node is
reported full and left as it was. -/
structure FirstFit (cfg : Config) (s : Scheduler) (t : ℕ) : Prop where
  found : ∀ x, IsLeast (freeSlots cfg s t) x → ∃ s', Takes cfg s t x s'
  full : freeSlots cfg s t = ∅ → ∃ slot, sswapSelectSlot cfg t .clear s = .ok (slot, ⟨false, true⟩, s)

/-- The least free slot is taken, if an `unsigned int` can count it. -/
theorem NodeCounts.takes (h : NodeCounts cfg s t) (hx : IsLeast (freeSlots cfg s t) x)
    (hsmall : x < 2 ^ 32) :
    Takes cfg s t x (s.setBit t (x / remoteAddressSpacePages) (x % remoteAddressSpacePages)) := by
  obtain ⟨⟨-, hg⟩, hbit⟩ := hx.1
  have hmod : x % remoteAddressSpacePages < remoteAddressSpacePages := Nat.mod_lt _ (by simp)
  have hfree : (s.remoteMap t (x / remoteAddressSpacePages)).freePages ≠ 0 :=
    (h.freePages_ne_zero_iff hg).mpr ⟨_, hmod, by rwa [slot_split]⟩
  constructor
  · rw [h.sswapSelectSlot_least .clear hx, u32_of_lt hsmall]
    rfl
  · intro u y
    rw [s.setBit_bit hmod, slot_split]
  · rw [Scheduler.setBit_remoteMap, if_pos ⟨rfl, rfl⟩]
    show _ - 1 + 1 = _
    omega
  · intro u g hne
    rw [Scheduler.setBit_remoteMap, if_neg hne]

/-- On a node whose counters are right the search is a first fit exactly if the node
has a group to read the size from, and a free slot that an `unsigned int` can count if
it has any. -/
theorem first_fit_iff (h : NodeCounts cfg s t) (ht : t < maxRemoteNodes) :
    FirstFit cfg s t ↔ 0 < cfg.nrRemoteMaps t ∧
      ((freeSlots cfg s t).Nonempty → ∃ x ∈ freeSlots cfg s t, x < 2 ^ 32) := by
  constructor
  · intro hfit
    constructor
    · by_contra hzero
      have hempty : freeSlots cfg s t = ∅ := by
        refine freeSlots_eq_empty.mpr fun x hslot => ?_
        exact absurd (Nat.zero_lt_of_lt hslot.2) hzero
      obtain ⟨slot, hsel⟩ := hfit.full hempty
      have hmap : mapAt cfg t 0 = .error (.remoteMap t 0) := if_neg fun hpos => hzero hpos.2
      simp only [sswapSelectSlot, hmap, bind, Except.bind, reduceCtorEq] at hsel
    · intro hfree
      have hleast : IsLeast (freeSlots cfg s t) (Nat.find hfree) :=
        ⟨Nat.find_spec hfree, fun y hy => Nat.find_min' hfree hy⟩
      obtain ⟨s', htakes⟩ := hfit.found _ hleast
      have hresult := htakes.result
      rw [h.sswapSelectSlot_least .clear hleast] at hresult
      simp only [Except.ok.injEq, Prod.mk.injEq] at hresult
      refine ⟨_, hleast.1, ?_⟩
      rw [← hresult.1]
      exact Nat.mod_lt _ (by decide)
  · rintro ⟨hpos, hsmall⟩
    constructor
    · intro x hx
      obtain ⟨y, hy, hlt⟩ := hsmall ⟨x, hx.1⟩
      exact ⟨_, h.takes hx (lt_of_le_of_lt (hx.2 hy) hlt)⟩
    · intro hfull
      exact ⟨0, sswapSelectSlot_full ht hpos fun g hg => h.freePages_eq_zero ht hfull hg⟩

/-- Two groups for each node. -/
def twoGroups : Config where
  nrRemoteMaps _ := 2
  nrRemoteSpaces := 2
  debugVm := false

/-- The slots that pageids have in `Scheduler.spilled`. -/
def spilledSlot (t x : ℕ) : Bool := (t = 0 ∧ x = 7) ∨ (t = 1 ∧ x < 16387)

/-- The state in which pageid `p` has slot `p` of node 1 for the first 16387 pageids, which
fill the first group, and pageid 20000 has slot 7 of node 0. -/
def Scheduler.spilled : Scheduler where
  remoteMap t g :=
    let mapping b := spilledSlot t (g * remoteAddressSpacePages + b)
    ⟨mapping, remoteAddressSpacePages, BitSearch.zeroCount mapping remoteAddressSpacePages⟩
  remoteSpaces _ p := if p = 20000 then slotEntry 0 7 else if p < 16387 then slotEntry 1 p else 0

theorem Scheduler.spilled_mappingOf {p t x : ℕ} : spilled.mappingOf p = some (t, x) ↔
    p = 20000 ∧ t = 0 ∧ x = 7 ∨ p < 16387 ∧ t = 1 ∧ x = p := by
  simp only [mappingOf, xaLoad, spilled]
  split
  · next h =>
    rw [decodeEntry_slotEntry (by decide) (by decide)]
    simp only [Option.some.injEq, Prod.mk.injEq]
    omega
  · next h =>
    split
    · next hp =>
      rw [decodeEntry_slotEntry (by decide) (by omega)]
      simp only [Option.some.injEq, Prod.mk.injEq]
      omega
    · next hp =>
      simp only [decodeEntry, if_true, reduceCtorEq, false_iff]
      omega

theorem Scheduler.spilled_bit (t x : ℕ) : spilled.bit t x = spilledSlot t x :=
  congrArg (spilledSlot t) (slot_split x)

theorem twoGroups_hasSlot {t x : ℕ} : twoGroups.HasSlot t x ↔ t < 2 ∧ x < 32768 := by
  rw [hasSlot_iff]
  simp only [twoGroups]
  omega

theorem Scheduler.spilled_consistent : spilled.Consistent twoGroups := by
  refine ⟨fun _ _ _ _ => rfl, fun _ _ _ _ => ?_, fun t x _ => ?_, fun p q l hp hq => ?_,
    fun p t x hp => ?_, fun p l hp => ?_, fun p t x hp => ?_⟩
  · simp only [spilled]
  · simp only [spilled_bit, spilledSlot, decide_eq_true_eq, spilled_mappingOf]
    constructor
    · rintro (⟨rfl, rfl⟩ | ⟨rfl, hx⟩)
      · exact ⟨20000, .inl ⟨rfl, rfl, rfl⟩⟩
      · exact ⟨x, .inr ⟨hx, rfl, rfl⟩⟩
    · rintro ⟨p, hp⟩
      omega
  · obtain ⟨t, x⟩ := l
    rw [spilled_mappingOf] at hp hq
    omega
  · rw [spilled_mappingOf] at hp
    exact twoGroups_hasSlot.mpr (by omega)
  · obtain ⟨t, x⟩ := l
    rw [spilled_mappingOf] at hp
    change p >>> 14 < 2
    rw [Nat.shiftRight_eq_div_pow]
    omega
  · rw [spilled_mappingOf] at hp
    exact twoGroups_hasSlot.mpr (by omega)

/-- The least free slot of node 1, whether or not pageid 20000 gives its own slot back. -/
theorem Scheduler.spilled_least {s : Scheduler} (h : ∀ x, s.bit 1 x = spilled.bit 1 x) :
    IsLeast (freeSlots twoGroups s 1) 16387 := by
  constructor
  · refine ⟨by decide, ?_⟩
    rw [h, spilled_bit]
    rfl
  · rintro y ⟨-, hy⟩
    rw [h, spilled_bit] at hy
    simpa [spilledSlot] using hy

/-- Past a full group and three taken slots, the search finds the fourth slot of the next
group. -/
theorem first_fit_spilled : FirstFit twoGroups Scheduler.spilled 1 ∧
    ∃ s', Takes twoGroups Scheduler.spilled 1 16387 s' := by
  have hcounts : NodeCounts twoGroups Scheduler.spilled 1 :=
    Scheduler.spilled_consistent.node (by decide)
  have hleast := Scheduler.spilled_least fun _ => rfl
  have hfit : FirstFit twoGroups Scheduler.spilled 1 :=
    (first_fit_iff hcounts (by decide)).mpr ⟨by decide, fun _ => ⟨16387, hleast.1, by decide⟩⟩
  exact ⟨hfit, hfit.found 16387 hleast⟩

/-- One group more than an `unsigned int` can count the slots of. -/
def wideNodes : Config where
  nrRemoteMaps _ := 2 ^ 18 + 1
  nrRemoteSpaces := 2 ^ 18 + 1
  debugVm := false

/-- The state in which pageid `p` has slot `p` of node 0, for the first `2 ^ 32` pageids. -/
def Scheduler.packed : Scheduler where
  remoteMap t g := ⟨fun _ => decide (t = 0 ∧ g < 2 ^ 18), remoteAddressSpacePages,
    if t = 0 ∧ g < 2 ^ 18 then 0 else remoteAddressSpacePages⟩
  remoteSpaces _ p := if p < 2 ^ 32 then slotEntry 0 p else 0

theorem Scheduler.packed_mappingOf (p : ℕ) :
    packed.mappingOf p = if p < 2 ^ 32 then some (0, p) else none := by
  simp only [mappingOf, xaLoad, packed]
  split
  · exact decodeEntry_slotEntry (by decide) (by omega)
  · rfl

theorem Scheduler.packed_mappingOf_some {p t x : ℕ} :
    packed.mappingOf p = some (t, x) ↔ p < 2 ^ 32 ∧ t = 0 ∧ x = p := by
  rw [packed_mappingOf]
  split
  · next h => simp only [Option.some.injEq, Prod.mk.injEq, h, true_and, eq_comm]
  · next h => simp only [reduceCtorEq, h, false_and]

theorem Scheduler.packed_bit (t x : ℕ) : packed.bit t x = true ↔ t = 0 ∧ x < 2 ^ 32 := by
  simp only [bit, packed, decide_eq_true_eq, remoteAddressSpacePages_eq]
  omega

theorem wideNodes_hasSlot {t x : ℕ} : wideNodes.HasSlot t x ↔ t < 2 ∧ x < 2 ^ 32 + 16384 := by
  rw [hasSlot_iff]
  simp only [wideNodes]
  omega

theorem Scheduler.packed_consistent : packed.Consistent wideNodes where
  nrPages _ _ _ _ := rfl
  freePages t g _ _ := by
    by_cases h : t = 0 ∧ g < 2 ^ 18
    · simp only [packed, h, and_self, decide_true, if_true, BitSearch.zeroCount_true]
    · simp only [packed, h, decide_false, if_false, BitSearch.zeroCount_false]
  owned t x _ := by
    rw [packed_bit]
    constructor
    · rintro ⟨rfl, hx⟩
      exact ⟨x, packed_mappingOf_some.mpr ⟨hx, rfl, rfl⟩⟩
    · rintro ⟨p, hp⟩
      obtain ⟨hlt, rfl, rfl⟩ := packed_mappingOf_some.mp hp
      exact ⟨rfl, hlt⟩
  unique p q l hp hq := by
    obtain ⟨t, x⟩ := l
    obtain ⟨-, -, rfl⟩ := packed_mappingOf_some.mp hp
    exact (packed_mappingOf_some.mp hq).2.2
  hasSlot p t x hp := by
    obtain ⟨hlt, rfl, rfl⟩ := packed_mappingOf_some.mp hp
    exact wideNodes_hasSlot.mpr ⟨by decide, by omega⟩
  inRange p l hp := by
    obtain ⟨t, x⟩ := l
    obtain ⟨hlt, -, -⟩ := packed_mappingOf_some.mp hp
    show p >>> 14 < 2 ^ 18 + 1
    rw [Nat.shiftRight_eq_div_pow]
    omega
  entries p t x hp := by
    obtain ⟨hlt, rfl, rfl⟩ := packed_mappingOf_some.mp hp
    exact wideNodes_hasSlot.mpr ⟨by decide, by omega⟩

/-- The least free slot of a node whose first `2 ^ 32` slots are taken. -/
theorem Scheduler.packed_freeSlots : IsLeast (freeSlots wideNodes packed 0) (2 ^ 32) := by
  constructor
  · refine ⟨wideNodes_hasSlot.mpr ⟨by decide, by omega⟩, ?_⟩
    rw [Bool.eq_false_iff, ne_eq, packed_bit]
    omega
  · rintro y ⟨-, hy⟩
    by_contra hlt
    rw [(packed_bit 0 y).mpr ⟨rfl, by omega⟩] at hy
    cases hy

/-- The bit of slot `2 ^ 32` is set and slot 0 is returned, which is taken. -/
theorem first_fit_counterexample :
    (∃ s', sswapSelectSlot wideNodes 0 .clear Scheduler.packed = .ok (0, ⟨true, false⟩, s') ∧
      s'.bit 0 (2 ^ 32) = true ∧ Scheduler.packed.bit 0 0 = true) ∧
    ¬ ∀ (cfg : Config) (s : Scheduler) (t : ℕ), NodeCounts cfg s t → t < maxRemoteNodes →
      FirstFit cfg s t := by
  have hcounts : NodeCounts wideNodes Scheduler.packed 0 :=
    Scheduler.packed_consistent.node (by decide)
  have hsel := hcounts.sswapSelectSlot_least .clear Scheduler.packed_freeSlots
  constructor
  · refine ⟨_, hsel, ?_, (Scheduler.packed_bit 0 0).mpr ⟨rfl, by decide⟩⟩
    rw [Scheduler.setBit_bit _ (Nat.mod_lt _ (by simp)), if_pos ⟨rfl, (slot_split _).symm⟩]
  · intro h
    obtain ⟨s', htakes⟩ := (h wideNodes _ 0 hcounts (by decide)).found _ Scheduler.packed_freeSlots
    have hresult := htakes.result
    rw [hsel] at hresult
    simp only [Except.ok.injEq, Prod.mk.injEq] at hresult
    exact absurd hresult.1 (by decide)

end Multiswap
