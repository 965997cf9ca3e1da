import Multiswap.Driver.Defs

/-!
# The connection handshake

`sswap_rdma_init_queue` and the handler of the events of its `rdma_cm_id`, for one
queue. The handler shares with the waiter only `cm_error`, which it writes once at
its end, and `cm_done`, and `rdma_destroy_id` waits for a handler that runs. So a
call of the handler is one step here. What the kernel answers in it is given by an
`Answers`, and an `int` result of 0 means success.
-/

namespace Multiswap.Handshake

open Driver (enodev)

/-- `ETIMEDOUT`. -/
def etimedout : ℤ := 110

/-- `ECONNRESET`. -/
def econnreset : ℤ := 104

/-- What a handshake creates. The completion queues are numbered, and a queue pair has
the number of its completion queue. -/
inductive Resource where
  | cmId
  | cq (n : ℕ)
  | qp (n : ℕ)
  deriving DecidableEq, Repr

/-- What the kernel answers while one event is handled. -/
structure Answers where
  -- Whether the calls of `sswap_rdma_get_device` return an object and the device can
  -- register memory.
  kzalloc : Bool
  allocPd : Bool
  memMgtExtensions : Bool
  -- `PTR_ERR` of the result of `ib_alloc_cq` if it is an error.
  allocCq : ℤ
  createQp : ℤ
  resolveRoute : ℤ
  connect : ℤ

/-- `enum rdma_cm_event_type`. -/
inductive CmEvent where
  | addrResolved
  | addrError
  | routeResolved
  | routeError
  | connectError
  | unreachable
  | rejected
  | established
  | disconnected
  | deviceRemoval
  | addrChange
  | timewaitExit
  -- Any other event.
  | other
  deriving DecidableEq, Repr

/-- `queue->cq`. -/
inductive CqPtr where
  | null
  -- An error that `ib_alloc_cq` returned.
  | err
  | cq (n : ℕ)
  deriving DecidableEq, Repr

/-- `struct rdma_queue`, whether `ctrl->rdev` is set, the number of the next
completion queue, and the log of the objects. -/
structure Queue where
  rdev : Bool
  cq : CqPtr
  qp : Option ℕ
  cmError : ℤ
  -- `cm_done` has been completed.
  cmDone : Bool
  next : ℕ
  log : List (Ledger.Entry Resource)

instance : Ledger.Logged Queue Resource where
  log := Queue.log
  setLog q l := { q with log := l }
  log_setLog _ _ := rfl
  setLog_setLog _ _ _ := rfl
  setLog_log _ := rfl

@[simp] theorem logged_log (q : Queue) : Ledger.Logged.log q = q.log := rfl

@[simp] theorem logged_setLog (q : Queue) (l : List (Ledger.Entry Resource)) :
    Ledger.Logged.setLog q l = { q with log := l } := rfl

abbrev M := EStateM Fault Queue

variable (k : Answers)

/-- `sswap_rdma_get_device`. The device record belongs to the controller, and is freed
again here if its set-up fails. -/
def getDevice : M Bool := do
  if !(← get).rdev then
    if !k.kzalloc then
      return false
    if !k.allocPd then
      return false
    if !k.memMgtExtensions then
      return false
    modify fun q => { q with rdev := true }
  return true

/-- `ib_free_cq(q->cq)`. -/
def freeCq : M PUnit := do
  match (← get).cq with
  | .null | .err => throw .nullDeref
  | .cq n => Ledger.release (.cq n)

/-- `sswap_rdma_create_qp` for completion queue `n`. -/
def createQp (n : ℕ) : M ℤ := do
  if k.createQp ≠ 0 then
    return k.createQp
  modify fun q => { q with qp := some n, log := q.log ++ [.acquire (.qp n)] }
  return k.createQp

/-- `sswap_rdma_destroy_queue_ib`. -/
def destroyQueueIb : M PUnit := do
  if !(← get).rdev then
    throw .nullDeref
  freeCq

/-- `sswap_rdma_create_queue_ib`. -/
def createQueueIb : M ℤ := do
  if !(← get).rdev then
    throw .nullDeref
  if k.allocCq ≠ 0 then
    modify fun q => { q with cq := .err }
    return k.allocCq
  let n := (← get).next
  modify fun q => { q with cq := .cq n, next := n + 1, log := q.log ++ [.acquire (.cq n)] }
  let ret ← createQp k n
  if ret ≠ 0 then
    freeCq
    return ret
  return 0

/-- `sswap_rdma_addr_resolved`. -/
def addrResolved : M ℤ := do
  if !(← getDevice k) then
    return -enodev
  let ret ← createQueueIb k
  if ret ≠ 0 then
    return ret
  if k.resolveRoute ≠ 0 then
    destroyQueueIb
  return 0

/-- `sswap_rdma_route_resolved`, which starts by reading `q->qp->qp_num`. -/
def routeResolved : M ℤ := do
  if (← get).qp = none then
    throw .nullDeref
  if !(← get).rdev then
    throw .nullDeref
  if k.connect ≠ 0 then
    destroyQueueIb
  return 0

/-- `sswap_rdma_conn_established`. -/
def connEstablished : M ℤ := return 0

/-- Set `cm_error` and complete `cm_done`. -/
def Queue.report (q : Queue) (cmError : ℤ) : Queue := { q with cmError := cmError, cmDone := true }

/-- The end of `sswap_rdma_cm_handler` after its `switch`. -/
def finish (cmError : ℤ) : M ℤ := do
  if cmError ≠ 0 then
    modify fun q => q.report cmError
  return 0

/-- `sswap_rdma_cm_handler`. -/
def cmHandler (ev : CmEvent) : M ℤ :=
  match ev with
  | .addrResolved => do finish (← addrResolved k)
  | .routeResolved => do finish (← routeResolved k)
  | .established => do
    let ret ← connEstablished
    modify fun q => q.report ret
    return 0
  | .addrError | .routeError | .connectError | .unreachable => finish (-econnreset)
  | .rejected | .disconnected | .addrChange | .timewaitExit | .deviceRemoval | .other => finish 0

/-- Where `sswap_rdma_init_queue` stands. -/
inductive Phase where
  | start
  -- In `sswap_rdma_wait_for_cm`.
  | waiting
  -- At `out_destroy_cm_id`.
  | destroying (ret : ℤ)
  | returned (ret : ℤ)
  | crashed (f : Fault)
  deriving DecidableEq, Repr

/-- The `rdma_cm_id` delivers events. -/
def Phase.Listens : Phase → Prop
  | .waiting | .destroying _ => True
  | .start | .returned _ | .crashed _ => False

instance : (ph : Phase) → Decidable ph.Listens
  | .waiting | .destroying _ => isTrue trivial
  | .start | .returned _ | .crashed _ => isFalse id

/-- How the wait for `cm_done` ends. -/
inductive Wakeup where
  | completed
  | timedOut
  | interrupted
  deriving DecidableEq, Repr

/-- One step of a handshake. -/
inductive Input where
  -- `sswap_rdma_init_queue` up to its wait: whether `rdma_create_id` returns an id, and
  -- what `rdma_resolve_addr` returns.
  | begin (createId : Bool) (resolveAddr : ℤ)
  | event (k : Answers) (ev : CmEvent)
  | wake (w : Wakeup)
  -- `rdma_destroy_id` and the return.
  | destroy

/-- A queue in its handshake, with the events that its handler has returned from. -/
structure Process where
  phase : Phase
  queue : Queue
  handled : List CmEvent

/-- Before `sswap_rdma_init_queue`. An earlier queue may have set `ctrl->rdev`. -/
def Process.initial (rdev : Bool) : Process where
  phase := .start
  queue := ⟨rdev, .null, none, 0, false, 0, []⟩
  handled := []

/-- One step. An input that cannot occur in a phase changes nothing. -/
def Process.step (p : Process) : Input → Process
  | .begin createId resolveAddr =>
    if p.phase = .start then
      if !createId then
        { p with phase := .returned (-enodev) }
      else
        { p with
          phase := if resolveAddr ≠ 0 then .destroying resolveAddr else .waiting
          queue := { p.queue with
            cmError := -etimedout, log := p.queue.log ++ [.acquire .cmId] } }
    else p
  | .event k ev =>
    if p.phase.Listens then
      match cmHandler k ev p.queue with
      | .ok _ q => { p with queue := q, handled := p.handled ++ [ev] }
      | .error f q => { p with phase := .crashed f, queue := q }
    else p
  | .wake w =>
    if p.phase = .waiting ∧ (w = .completed → p.queue.cmDone) then
      { p with phase := if p.queue.cmError ≠ 0 then .destroying p.queue.cmError else .returned 0 }
    else p
  | .destroy =>
    match p.phase with
    | .destroying ret =>
      { p with
        phase := .returned ret
        queue := { p.queue with log := p.queue.log ++ [.release .cmId] } }
    | _ => p

end Multiswap.Handshake
