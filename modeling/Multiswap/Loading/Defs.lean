import Multiswap.Lib.Ledger
import Multiswap.Rdma.Defs
import Multiswap.Scheduler.Defs

/-!
# Loading and unloading the scheduler

`init_scheduler` and `exit_scheduler` with every allocation that they make. The
group array of a node and the bitmap of one of its groups are named by node and
group. `kvcalloc` refuses arrays of `2 ^ 31` bytes, so the `int` that counts the
groups of an array in the two exit functions does not wrap.
-/

namespace Multiswap.Loading

open Ledger (acquire release)
open Rdma (enomem)

/-- What the module allocates. -/
inductive Resource where
  -- The `maps` of `init_remote_bitmap`.
  | maps (type : ℕ)
  | mapping (type group : ℕ)
  -- The `spaces` of `init_remote_address_space`.
  | spaces
  deriving DecidableEq, Repr

/-- Whether each `kvcalloc` returns an object. -/
structure Answers where
  maps : ℕ → Bool
  mapping : (type group : ℕ) → Bool
  spaces : Bool

/-- The static variables of the module, each with the array it points to if it is not
null, and the log of the allocations. -/
structure Globals where
  remoteMap : ℕ → Option (ℕ → RemoteBitmap)
  nrRemoteMaps : ℕ → ℕ
  remoteSpaces : Option (ℕ → ℕ → ℕ)
  nrRemoteSpaces : ℕ
  log : List (Ledger.Entry Resource)

/-- Before the module is loaded. -/
def Globals.initial : Globals := ⟨fun _ => none, fun _ => 0, none, 0, []⟩

instance : Ledger.Logged Globals Resource where
  log := Globals.log
  setLog s l := { s with log := l }
  log_setLog _ _ := rfl
  setLog_setLog _ _ _ := rfl
  setLog_log _ := rfl

@[simp] theorem logged_log (s : Globals) : Ledger.Logged.log s = s.log := rfl

@[simp] theorem logged_setLog (s : Globals) (l : List (Ledger.Entry Resource)) :
    Ledger.Logged.setLog s l = { s with log := l } := rfl

abbrev M := EStateM Fault Globals

/-- `kvfree` of a pointer that may be null, which it ignores. -/
def kvfree (p : Bool) (r : Resource) : M PUnit := Ledger.releaseIf p r

variable (k : Answers)

/-- The loop of `init_remote_bitmap` over the remaining `fuel` groups from `i` on. It
returns the array, unless an allocation fails. -/
def initMappings (type : ℕ) : (fuel i : ℕ) → (maps : ℕ → RemoteBitmap) →
    M (Option (ℕ → RemoteBitmap))
  | 0, _, maps => return some maps
  | fuel + 1, i, maps => do
    if !k.mapping type i then
      return none
    acquire (.mapping type i)
    initMappings type fuel (i + 1) (Function.update maps i
      ⟨fun _ => false, remoteAddressSpacePages, remoteAddressSpacePages⟩)

/-- `init_remote_bitmap`. -/
def initRemoteBitmap (type nrPages : ℕ) : M ℤ := do
  let nr := nrGroups nrPages
  if !k.maps type then
    return -enomem
  acquire (.maps type)
  match ← initMappings k type nr 0 fun _ => ⟨fun _ => false, 0, 0⟩ with
  | none => return -enomem
  | some maps =>
    modify fun s => { s with
      remoteMap := Function.update s.remoteMap type (some maps)
      nrRemoteMaps := Function.update s.nrRemoteMaps type nr }
    return 0

/-- `exit_remote_bitmap`. The first access to `maps` is through `map->mapping` of group 0. -/
def exitRemoteBitmap (type : ℕ) : M PUnit := do
  let s ← get
  if (s.remoteMap type).isNone ∧ s.nrRemoteMaps type ≠ 0 then
    throw .nullDeref
  (List.range (s.nrRemoteMaps type)).forM fun i => release (.mapping type i)
  kvfree (s.remoteMap type).isSome (.maps type)
  modify fun s => { s with remoteMap := Function.update s.remoteMap type none }

/-- `init_remote_address_space`: the loop over the new array leaves empty xarrays. -/
def initRemoteAddressSpace (nrPages : ℕ) : M ℤ := do
  let nr := nrGroups nrPages
  if !k.spaces then
    return -enomem
  acquire .spaces
  modify fun s => { s with nrRemoteSpaces := nr, remoteSpaces := some fun _ _ => 0 }
  return 0

/-- `exit_remote_address_space`. The nodes of the xarrays, which `xa_destroy` frees,
were allocated by stores, not by the loading. -/
def exitRemoteAddressSpace : M PUnit := do
  let s ← get
  if s.remoteSpaces.isNone ∧ s.nrRemoteSpaces ≠ 0 then
    throw .nullDeref
  kvfree s.remoteSpaces.isSome .spaces
  modify fun s => { s with nrRemoteSpaces := 0, remoteSpaces := none }

/-- The loop of `init_scheduler` over the remaining `fuel` nodes from `i` on. -/
def initRemoteBitmaps (nrPages : ℕ) : (fuel i : ℕ) → M ℤ
  | 0, _ => return 0
  | fuel + 1, i => do
    let ret ← initRemoteBitmap k i nrPages
    if ret ≠ 0 then
      return ret
    initRemoteBitmaps nrPages fuel (i + 1)

/-- The loop under `delete_bitmap` of `init_scheduler` and that of `exit_scheduler`. -/
def exitRemoteBitmaps (nodes : ℕ) : M PUnit := (List.range nodes).forM exitRemoteBitmap

/-- `init_scheduler`, with `nodes` for `MAX_REMOTE_NODES`. -/
def initScheduler (nodes nrPages : ℕ) : M ℤ := do
  let ret ← initRemoteBitmaps k nrPages nodes 0
  if ret ≠ 0 then
    exitRemoteBitmaps nodes
    return ret
  let ret ← initRemoteAddressSpace k nrPages
  if ret ≠ 0 then
    exitRemoteAddressSpace
    exitRemoteBitmaps nodes
    return ret
  return 0

/-- `exit_scheduler`. -/
def exitScheduler (nodes : ℕ) : M PUnit := do
  exitRemoteBitmaps nodes
  exitRemoteAddressSpace

end Multiswap.Loading
