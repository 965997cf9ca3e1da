import Multiswap.Scheduler.Defs

/-!
# Slots

A slot of a node is numbered by group and bit. This module views the bitmaps by
slot, decodes the entries of the xarrays, and says what each locked section and
each xarray access changes in these views.
-/

namespace Multiswap

/-- The node has a group for this slot. -/
def Config.HasSlot (cfg : Config) (type slot : ℕ) : Prop :=
  type < maxRemoteNodes ∧ slot / remoteAddressSpacePages < cfg.nrRemoteMaps type

/-- The pageid has an address space. -/
def Config.InRange (cfg : Config) (pageid : ℕ) : Prop :=
  pageid >>> remoteAddressSpaceShift < cfg.nrRemoteSpaces

instance (cfg : Config) (type slot : ℕ) : Decidable (cfg.HasSlot type slot) :=
  inferInstanceAs (Decidable (_ ∧ _))

instance (cfg : Config) (pageid : ℕ) : Decidable (cfg.InRange pageid) :=
  inferInstanceAs (Decidable (_ < _))

/-- The address spaces of the shipped configuration are those of the remote buffer. -/
theorem initScheduler_inRange (debugVm : Bool) (p : ℕ) :
    (initScheduler debugVm).InRange p ↔ p < remoteBufSize >>> pageShift := by
  change p >>> 14 < 128 ↔ p < 2097152
  rw [Nat.shiftRight_eq_div_pow]
  omega

/-- The entry that records `slot` on node `type`. -/
def slotEntry (type slot : ℕ) : ℕ := xaMkValue (makeXaMsg slot type)

/-- The node and slot that an xarray entry records; `NULL` records none. -/
def decodeEntry (entry : ℕ) : Option (ℕ × ℕ) :=
  if entry = 0 then none else some (remoteType (xaToValue entry), remoteSlot (xaToValue entry))

theorem makeXaMsg_eq {type slot : ℕ} (ht : type < 16) (hs : slot < 2 ^ 60) :
    makeXaMsg slot type = slot * 16 + type := by
  have hshift : slot <<< 4 < 2 ^ 64 := by rw [Nat.shiftLeft_eq]; omega
  have hmask : type &&& 0xF = type := by
    rw [show (0xF : ℕ) = 2 ^ 4 - 1 from rfl, Nat.and_two_pow_sub_one_eq_mod]
    omega
  rw [makeXaMsg, u64_of_lt hshift, hmask, ← Nat.shiftLeft_add_eq_or_of_lt (by omega : type < 2 ^ 4),
    Nat.shiftLeft_eq]

/-- Packing, tagging and reading back gives the node and the slot. -/
theorem decodeEntry_slotEntry {type slot : ℕ} (ht : type < 16) (hs : slot < 2 ^ 59) :
    decodeEntry (slotEntry type slot) = some (type, slot) := by
  have hmsg := makeXaMsg_eq ht (hs.trans (by decide))
  have hval : xaToValue (slotEntry type slot) = slot * 16 + type := by
    rw [slotEntry, hmsg, xaToValue_xaMkValue (by omega)]
  rw [decodeEntry, if_neg (show slotEntry type slot ≠ 0 from xaMkValue_ne_zero _), hval]
  congr 2
  · rw [remoteType, show (0xF : ℕ) = 2 ^ 4 - 1 from rfl, Nat.and_two_pow_sub_one_eq_mod]
    omega
  · rw [remoteSlot, Nat.shiftRight_eq_div_pow]
    omega

/-- The offset of a slot, in bytes. -/
theorem slotOffset_eq {slot : ℕ} (h : slot < 2 ^ 52) : u64 (slot <<< pageShift) = slot * 4096 := by
  rw [pageShift_eq, Nat.shiftLeft_eq, u64_of_lt (by omega)]

namespace Scheduler

variable (s : Scheduler)

/-- The bit of a slot. -/
def bit (type slot : ℕ) : Bool :=
  (s.remoteMap type (slot / remoteAddressSpacePages)).mapping (slot % remoteAddressSpacePages)

/-- The node and slot recorded for a pageid. -/
def mappingOf (pageid : ℕ) : Option (ℕ × ℕ) :=
  decodeEntry (s.xaLoad (pageid >>> remoteAddressSpaceShift) pageid)

/-- Replacing a group by one made from it. -/
theorem setMap_remoteMap (f : RemoteBitmap → RemoteBitmap) (type group t g : ℕ) :
    (s.setMap type group (f (s.remoteMap type group))).remoteMap t g =
      if t = type ∧ g = group then f (s.remoteMap t g) else s.remoteMap t g := by
  by_cases ht : t = type
  · subst ht
    by_cases hg : g = group
    · subst hg
      simp [setMap]
    · simp [setMap, hg]
  · simp [setMap, ht]

/-- Replacing one bit of a group changes the bit of that slot only. -/
theorem setMap_bit {type group b : ℕ} (v : Bool) (count : ℕ) (hb : b < remoteAddressSpacePages)
    (t x : ℕ) :
    (s.setMap type group { s.remoteMap type group with
      mapping := Function.update (s.remoteMap type group).mapping b v
      freePages := count }).bit t x =
        if t = type ∧ x = group * remoteAddressSpacePages + b then v else s.bit t x := by
  have hmap := s.setMap_remoteMap (fun map => { map with
    mapping := Function.update map.mapping b v, freePages := count }) type group
  simp only [remoteAddressSpacePages_eq] at hb ⊢
  simp only [bit, hmap, remoteAddressSpacePages_eq]
  by_cases hg : t = type ∧ x / 16384 = group
  · obtain ⟨rfl, rfl⟩ := hg
    by_cases hx : x % 16384 = b
    · have : x = x / 16384 * 16384 + b := by omega
      simp [hx, ← this]
    · have : x ≠ x / 16384 * 16384 + b := by omega
      simp [hx, this]
  · have : ¬ (t = type ∧ x = group * 16384 + b) := by omega
    rw [if_neg hg]
    exact (if_neg this).symm

theorem setBit_remoteMap (type group bit t g : ℕ) :
    (s.setBit type group bit).remoteMap t g =
      if t = type ∧ g = group then
        { s.remoteMap t g with
          mapping := Function.update (s.remoteMap t g).mapping bit true
          freePages := (s.remoteMap t g).freePages - 1 }
      else s.remoteMap t g :=
  s.setMap_remoteMap (fun map => { map with
    mapping := Function.update map.mapping bit true, freePages := map.freePages - 1 }) type group t g

theorem clearBit_remoteMap (type group bit t g : ℕ) :
    (s.clearBit type group bit).remoteMap t g =
      if t = type ∧ g = group then
        { s.remoteMap t g with
          mapping := Function.update (s.remoteMap t g).mapping bit false
          freePages := (s.remoteMap t g).freePages + 1 }
      else s.remoteMap t g :=
  s.setMap_remoteMap (fun map => { map with
    mapping := Function.update map.mapping bit false, freePages := map.freePages + 1 }) type group t g

/-- Setting the bit of a slot changes the bit of that slot only. -/
theorem setBit_bit {type group b : ℕ} (hb : b < remoteAddressSpacePages) (t x : ℕ) :
    (s.setBit type group b).bit t x =
      if t = type ∧ x = group * remoteAddressSpacePages + b then true else s.bit t x :=
  s.setMap_bit _ _ hb t x

/-- Clearing the bit of a slot changes the bit of that slot only. -/
theorem clearBit_bit {type group b : ℕ} (hb : b < remoteAddressSpacePages) (t x : ℕ) :
    (s.clearBit type group b).bit t x =
      if t = type ∧ x = group * remoteAddressSpacePages + b then false else s.bit t x :=
  s.setMap_bit _ _ hb t x

/-- Recording a mapping changes the mapping of that pageid only. -/
theorem xaStore_mappingOf (pageid entry p : ℕ) :
    (s.xaStore (pageid >>> remoteAddressSpaceShift) pageid entry).mappingOf p =
      if p = pageid then decodeEntry entry else s.mappingOf p := by
  by_cases hp : p = pageid
  · subst hp
    simp [mappingOf, xaLoad, xaStore]
  · rw [if_neg hp]
    by_cases hspace : p >>> remoteAddressSpaceShift = pageid >>> remoteAddressSpaceShift
    · simp only [mappingOf, xaLoad, xaStore, hspace, Function.update_self, Function.update_of_ne hp]
    · simp only [mappingOf, xaLoad, xaStore, Function.update_of_ne hspace]

/-- A probe either sets the lowest zero bit of a group with free pages or
changes nothing. -/
theorem probe_eq (type group nrPages : ℕ) :
    s.probe type group nrPages =
      if (s.remoteMap type group).freePages ≠ 0 then
        some (BitSearch.firstZero (s.remoteMap type group).mapping nrPages,
          s.setBit type group (BitSearch.firstZero (s.remoteMap type group).mapping nrPages))
      else none := rfl

@[simp] theorem init_bit (type slot : ℕ) : init.bit type slot = false := rfl

@[simp] theorem init_mappingOf (pageid : ℕ) : init.mappingOf pageid = none := rfl

end Scheduler

section Accesses

variable {cfg : Config} {s : Scheduler} {p t g x entry : ℕ}

theorem spaceOf_ok (h : cfg.InRange p) : spaceOf cfg p = .ok (p >>> remoteAddressSpaceShift) :=
  if_pos h

theorem spaceOf_error (h : ¬ cfg.InRange p) :
    spaceOf cfg p = .error (.remoteSpaces (p >>> remoteAddressSpaceShift)) :=
  if_neg h

theorem mapAt_ok (ht : t < 2) (hg : g < cfg.nrRemoteMaps t) : mapAt cfg t g = .ok () :=
  if_pos ⟨ht, hg⟩

/-- The release of a recorded slot of an existing group. -/
theorem releaseOld_ok (he : decodeEntry entry = some (t, x)) (h : cfg.HasSlot t x) :
    releaseOld cfg entry s =
      .ok (s.clearBit t (x / remoteAddressSpacePages) (x % remoteAddressSpacePages)) := by
  rw [decodeEntry] at he
  split at he
  · cases he
  · simp only [Option.some.injEq, Prod.mk.injEq] at he
    obtain ⟨rfl, rfl⟩ := he
    have hmap := mapAt_ok h.1 h.2
    simp only [releaseOld, hmap, bind, Except.bind, pure, Except.pure]

theorem decodeEntry_eq_none : decodeEntry entry = none ↔ entry = 0 := by
  simp [decodeEntry]

/-- `sswap_get_mapping` of a recorded slot. -/
theorem sswapGetMapping_some (hr : cfg.InRange p) (hm : s.mappingOf p = some (t, x)) :
    sswapGetMapping cfg p s = .ok (u64 (x <<< pageShift), t) := by
  unfold Scheduler.mappingOf at hm
  have hne : s.xaLoad (p >>> remoteAddressSpaceShift) p ≠ 0 := by
    intro h
    rw [decodeEntry_eq_none.mpr h] at hm
    cases hm
  rw [decodeEntry, if_neg hne] at hm
  simp only [Option.some.injEq, Prod.mk.injEq] at hm
  obtain ⟨rfl, rfl⟩ := hm
  rw [sswapGetMapping, spaceOf_ok hr]
  simp [bind, Except.bind, pure, Except.pure, hne]

/-- `sswap_get_mapping` without a recorded slot, where it does not stop the kernel. -/
theorem sswapGetMapping_none (hr : cfg.InRange p) (hm : s.mappingOf p = none) :
    sswapGetMapping cfg p s = if cfg.debugVm then .error .bug else .ok (0, 0) := by
  have hz : s.xaLoad (p >>> remoteAddressSpaceShift) p = 0 := decodeEntry_eq_none.mp hm
  rw [sswapGetMapping, spaceOf_ok hr]
  by_cases hd : cfg.debugVm = true
  · simp [bind, Except.bind, hz, hd, throw, throwThe, MonadExceptOf.throw]
  · simp [bind, Except.bind, pure, Except.pure, hz, hd, xaToValue, remoteSlot, remoteType, u64]

end Accesses

/-- The group of a slot and its bit, put together again. -/
theorem slot_split (slot : ℕ) :
    slot / remoteAddressSpacePages * remoteAddressSpacePages + slot % remoteAddressSpacePages =
      slot := by
  simp only [remoteAddressSpacePages_eq]
  omega

end Multiswap
