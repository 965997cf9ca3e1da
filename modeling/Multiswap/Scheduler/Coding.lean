import Mathlib.Order.CompletePartialOrder
import Mathlib.Order.Interval.Set.Disjoint
import Multiswap.Scheduler.Select

/-!
# The coding of slots

A slot is put together from group and bit by `sswap_select_slot`, packed with its
node into an xarray value by `sswap_add_mapping`, and taken apart again when it is
released or read. While the group sizes add up in an `unsigned int`, nothing is
lost on the way.
-/

namespace Multiswap

open BitSearch (firstZero)

variable {cfg : Config} {s : Scheduler} {flags : RemoteMappingFlags} {nr g b t u : ℕ}

/-- `offset` in the loop of `sswap_select_slot` when it comes to group `g`. -/
def selectOffset : (g : ℕ) → ℕ
  | 0 => 0
  | g + 1 => u32 (selectOffset g + remoteAddressSpacePages)

/-- `slot + offset` for bit `b` of group `g`. -/
def formedSlot (g b : ℕ) : ℕ := b + selectOffset g

/-- The bytes of the remote buffer that belong to a slot. -/
def pageWindow (g b : ℕ) : Set ℕ :=
  Set.Ico (u64 (formedSlot g b <<< pageShift)) (u64 (formedSlot g b <<< pageShift) + pageSize)

theorem selectOffset_eq (g : ℕ) : selectOffset g = u32 (g * remoteAddressSpacePages) := by
  induction g with
  | zero => rfl
  | succ g ih =>
    rw [selectOffset, ih, u32, u32, u32, Nat.mod_add_mod, Nat.add_mul, Nat.one_mul]

/-- With at most `2 ^ 18` groups the sum does not wrap. -/
theorem formedSlot_eq (hg : g < 2 ^ 18) (b : ℕ) : formedSlot g b = g * 16384 + b := by
  rw [formedSlot, selectOffset_eq, remoteAddressSpacePages_eq, u32_of_lt (by omega), Nat.add_comm]

/-- The slot of the first group with free pages is the formed one. -/
theorem sswapSelectSlot_formed (hu : u < 2) (hg : g < cfg.nrRemoteMaps u)
    (hnr : (s.remoteMap u 0).nrPages = remoteAddressSpacePages)
    (hbefore : ∀ g' < g, (s.remoteMap u g').freePages = 0) (hfree : (s.remoteMap u g).freePages ≠ 0)
    (hb : firstZero (s.remoteMap u g).mapping remoteAddressSpacePages = b) :
    sswapSelectSlot cfg u flags s =
      .ok (formedSlot g b, { flags with mappingSuccess := true }, s.setBit u g b) := by
  obtain ⟨g', -, hbefore', hfree', hsel⟩ := sswapSelectSlot_found flags hu hnr ⟨g, hg, hfree⟩
  have hgroup : g' = g := by
    rcases Nat.lt_trichotomy g' g with hlt | heq | hgt
    · exact absurd (hbefore g' hlt) hfree'
    · exact heq
    · exact absurd (hbefore' g hgt) hfree
  rw [hsel, hgroup, hb, formedSlot, selectOffset_eq]

/-- What the slot of bit `b` of group `g` becomes on a node with `nr` groups, if it is
packed for node `t`. -/
structure CodesBack (nr g b t : ℕ) : Prop where
  -- `sswap_select_slot` forms this slot where it takes bit `b` of group `g`.
  formed : ∀ (cfg : Config) (s : Scheduler) (u : ℕ) (flags : RemoteMappingFlags), u < maxRemoteNodes →
    cfg.nrRemoteMaps u = nr → (s.remoteMap u 0).nrPages = remoteAddressSpacePages →
    (∀ g' < g, (s.remoteMap u g').freePages = 0) → (s.remoteMap u g).freePages ≠ 0 →
    firstZero (s.remoteMap u g).mapping remoteAddressSpacePages = b →
    sswapSelectSlot cfg u flags s =
      .ok (formedSlot g b, { flags with mappingSuccess := true }, s.setBit u g b)
  type : remoteType (xaToValue (xaMkValue (makeXaMsg (formedSlot g b) t))) = t
  slot : remoteSlot (xaToValue (xaMkValue (makeXaMsg (formedSlot g b) t))) = formedSlot g b
  group : formedSlot g b / remoteAddressSpacePages = g
  bit : formedSlot g b % remoteAddressSpacePages = b
  -- The head of `sswap_add_mapping` clears this bit.
  released : ∀ (cfg : Config) (s : Scheduler), t < maxRemoteNodes → cfg.nrRemoteMaps t = nr →
    releaseOld cfg (xaMkValue (makeXaMsg (formedSlot g b) t)) s = .ok (s.clearBit t g b)
  fits : formedSlot g b <<< pageShift < 2 ^ 64
  shiftedBack : u64 (formedSlot g b <<< pageShift) >>> pageShift = formedSlot g b

theorem codesBack (hnr : nr ≤ 2 ^ 18) (hg : g < nr) (hb : b < remoteAddressSpacePages) (ht : t < 16) :
    CodesBack nr g b t := by
  rw [remoteAddressSpacePages_eq] at hb
  have hslot := formedSlot_eq (by omega : g < 2 ^ 18) b
  have hgroup : formedSlot g b / remoteAddressSpacePages = g := by
    rw [hslot, remoteAddressSpacePages_eq]
    omega
  have hbit : formedSlot g b % remoteAddressSpacePages = b := by
    rw [hslot, remoteAddressSpacePages_eq]
    omega
  have hentry := decodeEntry_slotEntry ht (by omega : formedSlot g b < 2 ^ 59)
  have hdecoded := hentry
  rw [decodeEntry, if_neg (show slotEntry t (formedSlot g b) ≠ 0 from xaMkValue_ne_zero _)] at hdecoded
  simp only [slotEntry, Option.some.injEq, Prod.mk.injEq] at hdecoded
  have hfits : formedSlot g b <<< pageShift < 2 ^ 64 := by
    rw [hslot, pageShift_eq, Nat.shiftLeft_eq]
    omega
  refine ⟨fun cfg s u flags hu hcfg hsize hbefore hfree hzero => ?_, hdecoded.1, hdecoded.2, hgroup,
    hbit, fun cfg s ht hcfg => ?_, hfits, ?_⟩
  · exact sswapSelectSlot_formed hu (hcfg ▸ hg) hsize hbefore hfree hzero
  · have hhas : cfg.HasSlot t (formedSlot g b) := ⟨ht, by rw [hgroup, hcfg]; exact hg⟩
    have hreleased := releaseOld_ok (s := s) hentry hhas
    rwa [hgroup, hbit] at hreleased
  · rw [u64_of_lt hfits, Nat.shiftLeft_shiftRight]

/-- Different bits have different windows. -/
theorem pageWindow_disjoint {g' b' : ℕ} (hg : g < 2 ^ 18) (hb : b < remoteAddressSpacePages)
    (hg' : g' < 2 ^ 18) (hb' : b' < remoteAddressSpacePages) (hne : (g', b') ≠ (g, b)) :
    Disjoint (pageWindow g b) (pageWindow g' b') := by
  rw [remoteAddressSpacePages_eq] at hb hb'
  have hslots : formedSlot g b ≠ formedSlot g' b' := by
    rw [formedSlot_eq hg, formedSlot_eq hg']
    intro heq
    exact hne (Prod.ext (by omega) (by omega))
  have hsmall : formedSlot g b < 2 ^ 52 := by rw [formedSlot_eq hg]; omega
  have hsmall' : formedSlot g' b' < 2 ^ 52 := by rw [formedSlot_eq hg']; omega
  rw [Set.disjoint_left]
  intro x hx hx'
  rw [pageWindow, slotOffset_eq hsmall, pageSize_eq, Set.mem_Ico] at hx
  rw [pageWindow, slotOffset_eq hsmall', pageSize_eq, Set.mem_Ico] at hx'
  omega

/-- On a node with at most `2 ^ 18` groups every slot is coded back, and different slots
have disjoint windows. -/
theorem slot_coding_round_trip (hnr : nr ≤ 2 ^ 18) (hg : g < nr) (hb : b < remoteAddressSpacePages)
    (ht : t < 16) :
    CodesBack nr g b t ∧ ∀ g' b', g' < nr → b' < remoteAddressSpacePages → (g', b') ≠ (g, b) →
      Disjoint (pageWindow g b) (pageWindow g' b') :=
  ⟨codesBack hnr hg hb ht, fun _ _ hg' hb' hne =>
    pageWindow_disjoint (hg.trans_le hnr) hb (hg'.trans_le hnr) hb' hne⟩

/-- The last slot of the largest node. -/
theorem slot_coding_round_trip_last : CodesBack (2 ^ 18) (2 ^ 18 - 1) 16383 15 :=
  (slot_coding_round_trip le_rfl (by decide) (by decide) (by decide)).1

end Multiswap
