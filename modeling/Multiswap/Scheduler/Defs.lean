import Multiswap.Kernel
import Multiswap.Lib.BitSearch

/-!
# The remote scheduler

`remote_schedule.h` and `remote_schedule.c`: per node a list of bitmap groups of
`REMOTE_ADDRESS_SPACE_PAGES` slots, and per `2 ^ 14` pageids an xarray from
pageid to the packed (slot, node). What runs under one `w_lock`, and each xarray
access, is a function of its own, so that the sequential operations here and the
interleaved ones of `Multiswap.Concurrent` are made of the same pieces.
-/

namespace Multiswap

/-- `MAX_REMOTE_NODES`. -/
def maxRemoteNodes : ℕ := 2

/-- `REMOTE_ADDRESS_SPACE_SHIFT`. -/
def remoteAddressSpaceShift : ℕ := 14

/-- `REMOTE_ADDRESS_SPACE_PAGES`, the slots of one bitmap group. -/
def remoteAddressSpacePages : ℕ := 1 <<< remoteAddressSpaceShift

@[simp] theorem maxRemoteNodes_eq : maxRemoteNodes = 2 := rfl
@[simp] theorem remoteAddressSpacePages_eq : remoteAddressSpacePages = 16384 := rfl

/-- `MAKE_XA_MSG`. -/
def makeXaMsg (slot type : ℕ) : ℕ := u64 (slot <<< 4) ||| (type &&& 0xF)

/-- `REMOTE_TYPE`. -/
def remoteType (xaMsg : ℕ) : ℕ := xaMsg &&& 0xF

/-- `REMOTE_SLOT`. -/
def remoteSlot (xaMsg : ℕ) : ℕ := xaMsg >>> 4

/-- `struct remote_mapping_flags`. -/
structure RemoteMappingFlags where
  mappingSuccess : Bool
  mappingFull : Bool
  deriving DecidableEq, Repr

/-- `flags.flags = 0`. -/
def RemoteMappingFlags.clear : RemoteMappingFlags := ⟨false, false⟩

/-- `struct remote_bitmap`; `mapping` is read at positions below `nrPages`. -/
structure RemoteBitmap where
  mapping : ℕ → Bool
  nrPages : ℕ
  freePages : ℕ

/-- What `init_scheduler` fixes: `nr_remote_maps`, `nr_remote_spaces`, and
whether the kernel was built with `CONFIG_DEBUG_VM`. -/
structure Config where
  nrRemoteMaps : ℕ → ℕ
  nrRemoteSpaces : ℕ
  debugVm : Bool

/-- What the scheduler's operations change: `remote_map` by node and group, and
the xarrays of `remote_spaces` by space and index. -/
structure Scheduler where
  remoteMap : ℕ → ℕ → RemoteBitmap
  remoteSpaces : ℕ → ℕ → ℕ

namespace Scheduler

/-- Replace one bitmap group. -/
def setMap (s : Scheduler) (type group : ℕ) (map : RemoteBitmap) : Scheduler :=
  { s with
    remoteMap := Function.update s.remoteMap type
      (Function.update (s.remoteMap type) group map) }

/-- `xa_load(&remote_spaces[space].i_pages, pageid)`. -/
def xaLoad (s : Scheduler) (space pageid : ℕ) : ℕ := s.remoteSpaces space pageid

/-- `xa_store(&remote_spaces[space].i_pages, pageid, entry)`. -/
def xaStore (s : Scheduler) (space pageid entry : ℕ) : Scheduler :=
  { s with
    remoteSpaces := Function.update s.remoteSpaces space
      (Function.update (s.remoteSpaces space) pageid entry) }

/-- `clear_bit` and `free_pages++` under the group's `w_lock`. -/
def clearBit (s : Scheduler) (type group bit : ℕ) : Scheduler :=
  let map := s.remoteMap type group
  s.setMap type group
    { map with
      mapping := Function.update map.mapping bit false
      freePages := map.freePages + 1 }

/-- `set_bit` and `free_pages--` under the group's `w_lock`. -/
def setBit (s : Scheduler) (type group bit : ℕ) : Scheduler :=
  let map := s.remoteMap type group
  s.setMap type group
    { map with
      mapping := Function.update map.mapping bit true
      freePages := map.freePages - 1 }

/-- One round of the loop of `sswap_select_slot` under the group's `w_lock`:
the bit it set, or nothing if the group has no free page. -/
def probe (s : Scheduler) (type group nrPages : ℕ) : Option (ℕ × Scheduler) :=
  if (s.remoteMap type group).freePages ≠ 0 then
    let slot := BitSearch.firstZero (s.remoteMap type group).mapping nrPages
    some (slot, s.setBit type group slot)
  else none

/-- The state after `init_remote_bitmap` of every node and
`init_remote_address_space`. -/
def init : Scheduler where
  remoteMap _ _ := ⟨fun _ => false, remoteAddressSpacePages, remoteAddressSpacePages⟩
  remoteSpaces _ _ := 0

end Scheduler

/-- `nr` of `init_remote_bitmap` and `init_remote_address_space`. -/
def nrGroups (nrPages : ℕ) : ℕ := u32 (divRoundUp nrPages remoteAddressSpacePages)

/-- The configuration that the shipped `init_scheduler` sets up. -/
def initScheduler (debugVm : Bool) : Config where
  nrRemoteMaps _ := nrGroups (remoteBufSize >>> pageShift)
  nrRemoteSpaces := nrGroups (remoteBufSize >>> pageShift)
  debugVm := debugVm

@[simp] theorem initScheduler_nrRemoteMaps (debugVm : Bool) (type : ℕ) :
    (initScheduler debugVm).nrRemoteMaps type = 128 := rfl

section Operations

variable (cfg : Config)

/-- `remote_spaces[pageid >> REMOTE_ADDRESS_SPACE_SHIFT]`. -/
def spaceOf (pageid : ℕ) : Except Fault ℕ :=
  let space := pageid >>> remoteAddressSpaceShift
  if space < cfg.nrRemoteSpaces then .ok space else .error (.remoteSpaces space)

/-- `remote_map[type][group]`. -/
def mapAt (type group : ℕ) : Except Fault Unit :=
  if type < maxRemoteNodes ∧ group < cfg.nrRemoteMaps type then .ok ()
  else .error (.remoteMap type group)

/-- The loop of `sswap_select_slot` over the remaining `fuel` groups from group
`i` on; `offset` is an `unsigned int`. -/
def selectLoop (s : Scheduler) (type nrPages : ℕ) (flags : RemoteMappingFlags) :
    (fuel i offset : ℕ) → ℕ × RemoteMappingFlags × Scheduler
  | 0, _, _ => (0, { flags with mappingFull := true }, s)
  | fuel + 1, i, offset =>
    match s.probe type i nrPages with
    | some (slot, s') => (slot + offset, { flags with mappingSuccess := true }, s')
    | none => selectLoop s type nrPages flags fuel (i + 1) (u32 (offset + nrPages))

/-- `sswap_select_slot`. -/
def sswapSelectSlot (type : ℕ) (flags : RemoteMappingFlags) (s : Scheduler) :
    Except Fault (ℕ × RemoteMappingFlags × Scheduler) := do
  mapAt cfg type 0
  let nrPages := (s.remoteMap type 0).nrPages
  return selectLoop s type nrPages flags (cfg.nrRemoteMaps type) 0 0

/-- The release of the old mapping at the head of `sswap_add_mapping`. -/
def releaseOld (entry : ℕ) (s : Scheduler) : Except Fault Scheduler := do
  let oldMsg := xaToValue entry
  let oldType := remoteType oldMsg
  let slot := remoteSlot oldMsg
  let offset := slot / remoteAddressSpacePages
  mapAt cfg oldType offset
  return s.clearBit oldType offset (slot % remoteAddressSpacePages)

/-- `sswap_add_mapping`; `xaErr` says that `xa_store` returned an error. -/
def sswapAddMapping (xaErr : Bool) (type pageid : ℕ) (flags : RemoteMappingFlags) (s : Scheduler) :
    Except Fault (ℕ × RemoteMappingFlags × Scheduler) := do
  let space ← spaceOf cfg pageid
  let entry := s.xaLoad space pageid
  let s ← if entry ≠ 0 then releaseOld cfg entry s else pure s
  let (slot, flags, s) ← sswapSelectSlot cfg type flags s
  if flags.mappingFull then
    return (0, flags, s)
  if xaErr then
    if cfg.debugVm then throw .bug
    return (u64 (slot <<< pageShift), flags, s)
  return (u64 (slot <<< pageShift), flags, s.xaStore space pageid (xaMkValue (makeXaMsg slot type)))

/-- `sswap_get_mapping`: the offset and the node stored through `type`. -/
def sswapGetMapping (pageid : ℕ) (s : Scheduler) : Except Fault (ℕ × ℕ) := do
  let space ← spaceOf cfg pageid
  let entry := s.xaLoad space pageid
  if entry = 0 ∧ cfg.debugVm then throw .bug
  let xaMsg := xaToValue entry
  return (u64 (remoteSlot xaMsg <<< pageShift), remoteType xaMsg)

/-- `sswap_scheduler_read`. -/
def sswapSchedulerRead (pageid : ℕ) (s : Scheduler) : Except Fault (ℕ × ℕ) :=
  sswapGetMapping cfg pageid s

/-- `sswap_scheduler_write`: the offset, the node stored through `type`, and the
state afterwards. The second `sswap_add_mapping` gets the flags of the first. -/
def sswapSchedulerWrite (xaErr : Bool) (pageid : ℕ) (s : Scheduler) :
    Except Fault (ℕ × ℕ × Scheduler) := do
  let flags := RemoteMappingFlags.clear
  if pageid % 2 = 0 then
    let (ret, flags, s) ← sswapAddMapping cfg xaErr 0 pageid flags s
    if flags.mappingFull then
      let (ret, _, s) ← sswapAddMapping cfg xaErr 1 pageid flags s
      return (ret, 1, s)
    return (ret, 0, s)
  else
    let (ret, flags, s) ← sswapAddMapping cfg xaErr 1 pageid flags s
    if flags.mappingFull then
      let (ret, _, s) ← sswapAddMapping cfg xaErr 0 pageid flags s
      return (ret, 0, s)
    return (ret, 1, s)

end Operations

end Multiswap
