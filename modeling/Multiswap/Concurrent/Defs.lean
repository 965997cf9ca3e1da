import Multiswap.Lib.Transition
import Multiswap.Scheduler.Slots

/-!
# Interleaved stores and loads

Any number of `sswap_store` and `sswap_load` calls run at the same time, each
cut into its atomic steps: the xarray accesses, the sections under one `w_lock`,
and the RDMA transfer. The swap core holds the page lock, so a pageid has at
most one running call and the calls can be named by their pageids. Every `xa_store`
succeeds here: `Multiswap.sswapAddMapping` has what is done when one fails.
-/

namespace Multiswap.Concurrent

/-- What the running call of a pageid does next. A store carries the contents of
its page, whether it is in the second `sswap_add_mapping` of
`sswap_scheduler_write`, and the flags. -/
inductive Op (α : Type) where
  -- No call is running.
  | idle
  -- `xa_load` of `sswap_add_mapping`.
  | storeLoad (page : α) (second : Bool) (flags : RemoteMappingFlags)
  -- The locked release of the slot in `entry`.
  | storeClear (page : α) (second : Bool) (flags : RemoteMappingFlags) (entry : ℕ)
  -- The locked round `i` of the loop of `sswap_select_slot`.
  | storeProbe (page : α) (second : Bool) (flags : RemoteMappingFlags) (i offset : ℕ)
  -- `xa_store` of the slot that `sswap_select_slot` returned.
  | storeRecord (page : α) (second : Bool) (flags : RemoteMappingFlags) (slot : ℕ)
  -- The transfer to the place that `sswap_scheduler_write` returned.
  | storeWrite (page : α) (type roffset : ℕ)
  -- `xa_load` of `sswap_get_mapping`.
  | loadLookup
  -- The transfer from the place that `sswap_scheduler_read` returned.
  | loadRead (type roffset : ℕ)

/-- A call returned. -/
inductive Event (α : Type) where
  -- `sswap_store` of these contents.
  | stored (pageid : ℕ) (page : α) (ret : ℤ)
  -- `sswap_load`, with what it put into the page, if anything.
  | loaded (pageid : ℕ) (ret : ℤ) (page : Option α)

/-- The scheduler, the remote memory by node and offset, and the running calls. -/
structure State (α : Type) where
  sched : Scheduler
  remote : ℕ → ℕ → α
  op : ℕ → Op α

/-- The node that `sswap_scheduler_write` tries first, and second. -/
def attemptNode (pageid : ℕ) (second : Bool) : ℕ :=
  if second then 1 - pageid % 2 else pageid % 2

variable {α : Type} (cfg : Config)

/-- `sswap_select_slot` has set `mapping_full` and returned: the first attempt is
followed by the second, the second gives up with offset `0`. -/
def afterFull (pageid : ℕ) (page : α) (second : Bool) (flags : RemoteMappingFlags) : Op α :=
  if second then .storeWrite page (attemptNode pageid second) 0
  else .storeLoad page true { flags with mappingFull := true }

/-- `sswap_select_slot` has returned a slot: `sswap_add_mapping` records it unless
`mapping_full` is set. -/
def afterSelect (pageid : ℕ) (page : α) (second : Bool) (flags : RemoteMappingFlags) (slot : ℕ) :
    Op α :=
  if flags.mappingFull then .storeWrite page (attemptNode pageid second) 0
  else .storeRecord page second { flags with mappingSuccess := true } slot

/-- One locked round of the loop of `sswap_select_slot`, or its exit. -/
def probeStep (pageid : ℕ) (page : α) (second : Bool) (flags : RemoteMappingFlags) (i offset : ℕ)
    (s : Scheduler) : Op α × Scheduler :=
  let type := attemptNode pageid second
  let nrPages := (s.remoteMap type 0).nrPages
  if i < cfg.nrRemoteMaps type then
    match s.probe type i nrPages with
    | some (slot, s') => (afterSelect pageid page second flags (slot + offset), s')
    | none => (.storeProbe page second flags (i + 1) (u32 (offset + nrPages)), s)
  else (afterFull pageid page second flags, s)

/-- The next atomic step of the running call of `pageid`. -/
def stepOp (pageid : ℕ) (s : State α) :
    Except Fault (Op α × Scheduler × (ℕ → ℕ → α) × List (Event α)) :=
  match s.op pageid with
  | .idle => .ok (.idle, s.sched, s.remote, [])
  | .storeLoad page second flags => do
    let space ← spaceOf cfg pageid
    let entry := s.sched.xaLoad space pageid
    return (if entry ≠ 0 then .storeClear page second flags entry
      else .storeProbe page second flags 0 0, s.sched, s.remote, [])
  | .storeClear page second flags entry => do
    let sched ← releaseOld cfg entry s.sched
    return (.storeProbe page second flags 0 0, sched, s.remote, [])
  | .storeProbe page second flags i offset => do
    mapAt cfg (attemptNode pageid second) 0
    let (op, sched) := probeStep cfg pageid page second flags i offset s.sched
    return (op, sched, s.remote, [])
  | .storeRecord page second _ slot =>
    let type := attemptNode pageid second
    .ok (.storeWrite page type (u64 (slot <<< pageShift)),
      s.sched.xaStore (pageid >>> remoteAddressSpaceShift) pageid (xaMkValue (makeXaMsg slot type)),
      s.remote, [])
  | .storeWrite page type roffset =>
    if roffset ≥ remoteBufSize then .ok (.idle, s.sched, s.remote, [.stored pageid page (-1)])
    else .ok (.idle, s.sched,
      Function.update s.remote type (Function.update (s.remote type) roffset page),
      [.stored pageid page 0])
  | .loadLookup => do
    let (roffset, type) ← sswapSchedulerRead cfg pageid s.sched
    return (.loadRead type roffset, s.sched, s.remote, [])
  | .loadRead type roffset =>
    if roffset ≥ remoteBufSize then .ok (.idle, s.sched, s.remote, [.loaded pageid (-1) none])
    else .ok (.idle, s.sched, s.remote, [.loaded pageid 0 (some (s.remote type roffset))])

/-- A step of the system: a pageid below `n` without a running call starts one,
or a running call takes its next atomic step. -/
inductive Step (n : ℕ) : State α → List (Event α) → State α → Prop
  | callStore {s : State α} (pageid : ℕ) (page : α) : pageid < n → s.op pageid = .idle →
      Step n s [] { s with op := Function.update s.op pageid (.storeLoad page false .clear) }
  | callLoad {s : State α} (pageid : ℕ) : pageid < n → s.op pageid = .idle →
      Step n s [] { s with op := Function.update s.op pageid .loadLookup }
  | advance {s : State α} (pageid : ℕ) {op : Op α} {sched : Scheduler} {remote : ℕ → ℕ → α}
      {ev : List (Event α)} : s.op pageid ≠ .idle → stepOp cfg pageid s = .ok (op, sched, remote, ev) →
      Step n s ev ⟨sched, remote, Function.update s.op pageid op⟩

/-- The driver from `init_scheduler` on, with pageids below `n`. -/
def system (n : ℕ) (remote : ℕ → ℕ → α) : Transition.System (State α) (Event α) where
  init s := s = ⟨Scheduler.init, remote, fun _ => .idle⟩
  step := Step cfg n

/-- The store has released its old slot, if it had one, and has not recorded the new one. -/
def Op.released : Op α → Bool
  | .storeProbe .. => true
  | .storeRecord .. => true
  | _ => false

/-- The slot that the store has reserved and not yet recorded. -/
def Op.reserved (pageid : ℕ) : Op α → Option (ℕ × ℕ)
  | .storeRecord _ second _ slot => some (attemptNode pageid second, slot)
  | _ => none

/-- `mapping_full` is set in the flags of the running store. -/
def Op.mappingFull : Op α → Bool
  | .storeLoad _ _ flags => flags.mappingFull
  | .storeClear _ _ flags _ => flags.mappingFull
  | .storeProbe _ _ flags _ _ => flags.mappingFull
  | .storeRecord _ _ flags _ => flags.mappingFull
  | _ => false

namespace State

variable (s : State α)

/-- The slot recorded for a pageid, unless its store has released it. -/
def recorded (pageid : ℕ) : Option (ℕ × ℕ) :=
  if (s.op pageid).released then none else s.sched.mappingOf pageid

/-- The slot that a pageid owns: the one its running store has reserved, else the
recorded one unless it has been released. -/
def held (pageid : ℕ) : Option (ℕ × ℕ) :=
  ((s.op pageid).reserved pageid).or (s.recorded pageid)

end State

end Multiswap.Concurrent
