import Mathlib.Data.Fintype.BigOperators
import Multiswap.Lib.Transition
import Multiswap.Rdma.Defs

/-!
# One queue and its callers

Any number of callers share one `struct rdma_queue`. Each runs
`sswap_rdma_write` or `sswap_rdma_read_sync` from the back-pressure loop on, one
atomic step at a time: reads of `pending`, its increment, the post, the lock
`cq_lock`, and every kernel call of the completion handlers, which run inside the
polls of any caller. The hardware completes posted requests in any order.
-/

namespace Multiswap.Queue

open Rdma (WrOpcode WcStatus HandlerStep qpMaxSendWr enomem)

/-- A call of `sswap_rdma_write` or `sswap_rdma_read_sync` for a page. -/
structure Call where
  op : WrOpcode
  page : ℕ
  deriving DecidableEq, Repr

/-- The bound on `pending` in the loop of `write_queue_add` or `read_queue_add`. -/
def Call.limit (c : Call) : ℕ :=
  match c.op with
  | .rdmaWrite => qpMaxSendWr - 8
  | .rdmaRead => qpMaxSendWr

/-- The target that this loop passes to `poll_target`. -/
def Call.target (c : Call) : ℕ :=
  match c.op with
  | .rdmaWrite => 2048
  | .rdmaRead => 8

/-- `struct rdma_req`; `id` tells the request objects apart. -/
structure Req where
  id : ℕ
  call : Call
  dma : ℕ
  deriving DecidableEq, Repr

/-- The two loops that poll the completion queue. -/
inductive Loop where
  -- `poll_target`, with the completions so far.
  | target (completed : ℕ)
  -- `drain_queue`, after which the call returns `ret`.
  | drain (ret : ℤ)
  deriving DecidableEq, Repr

/-- The condition of a loop. -/
def Loop.KeepsPolling (l : Loop) (c : Call) (pending : ℤ) : Prop :=
  match l with
  | .target completed => completed < c.target ∧ pending > 0
  | .drain _ => pending > 0

instance (l : Loop) (c : Call) (pending : ℤ) : Decidable (l.KeepsPolling c pending) :=
  match l with
  | .target _ => inferInstanceAs (Decidable (_ ∧ _))
  | .drain _ => inferInstanceAs (Decidable (_ > _))

/-- The budget that a loop passes to `ib_process_cq_direct`. -/
def Loop.budget (l : Loop) (c : Call) : ℕ :=
  match l with
  | .target completed => c.target - completed
  | .drain _ => 16

/-- The loop after a poll that handled `taken` completions. -/
def Loop.polled (l : Loop) (taken : ℕ) : Loop :=
  match l with
  | .target completed => .target (completed + taken)
  | .drain ret => .drain ret

/-- Where a caller stands. -/
inductive Pc where
  | idle
  -- At the head of the back-pressure loop.
  | pressure (c : Call)
  -- At the head of a polling loop.
  | loop (c : Call) (l : Loop)
  -- At `spin_lock_irqsave(&q->cq_lock)`.
  | lock (c : Call) (l : Loop)
  -- In `ib_process_cq_direct`, between two handlers.
  | poll (c : Call) (l : Loop) (taken : ℕ)
  -- In the completion handler of `r`, with these kernel calls left.
  | handle (c : Call) (l : Loop) (taken : ℕ) (r : Req) (left : List HandlerStep)
  -- At `kmem_cache_alloc`.
  | alloc (c : Call)
  -- At `ib_dma_map_page`.
  | map (c : Call) (id : ℕ)
  -- At `BUG_ON(qe->dma == 0)` and `atomic_inc`.
  | raise (c : Call) (r : Req)
  -- At `ib_post_send`.
  | post (c : Call) (r : Req)
  -- Stopped by the kernel.
  | crashed (f : Fault)
  deriving DecidableEq, Repr

/-- What a step shows. -/
inductive Event (ι : Type) where
  | allocated (i : ι) (id : ℕ)
  -- `kmem_cache_alloc` returned a null pointer.
  | allocFailed (i : ι)
  | mapped (i : ι) (r : Req)
  -- `ib_dma_map_page` failed.
  | mapFailed (i : ι)
  -- `kmem_cache_free` with the address of the variable that points to the request.
  | badFree (i : ι)
  -- `ib_post_send` accepted the request.
  | posted (i : ι) (r : Req)
  -- `ib_post_send` returned an error.
  | postFailed (i : ι) (r : Req) (ret : ℤ)
  -- A completion handler made this kernel call for the request.
  | handled (r : Req) (k : HandlerStep)
  | returned (i : ι) (c : Call) (ret : ℤ)
  deriving DecidableEq

/-- The queue and its callers. `pending` is an `atomic_t` that does not wrap: it
counts at most one request for each caller. -/
structure State (ι : Type) where
  pending : ℤ
  cqLock : Option ι
  -- Accepted by `ib_post_send` and not completed by the hardware.
  inflight : List Req
  -- Completed and not reaped by a poll.
  cq : List (Req × WcStatus)
  nextReq : ℕ
  pc : ι → Pc

variable {ι : Type} [DecidableEq ι]

/-- Move one caller. -/
def State.goto (s : State ι) (i : ι) (pc : Pc) : State ι := { s with pc := Function.update s.pc i pc }

/-- What a kernel call of a handler does to the counter. -/
def lowered (pending : ℤ) : HandlerStep → ℤ
  | .decPending => pending - 1
  | _ => pending

/-- Where a caller goes when `write_queue_add` or `read_queue_add` has returned:
a write has `BUG_ON(ret)` before its `drain_queue`. -/
def afterAdd (c : Call) (ret : ℤ) : Pc :=
  match c.op with
  | .rdmaWrite => if ret ≠ 0 then .crashed .bug else .loop c (.drain ret)
  | .rdmaRead => .loop c (.drain ret)

/-- It drains the queue, or it was stopped at that `BUG_ON`. -/
theorem afterAdd_of {P : Pc → Prop} {c : Call} {ret : ℤ} (hdrain : P (.loop c (.drain ret)))
    (hbug : ret ≠ 0 → c.op = .rdmaWrite → P (.crashed .bug)) : P (afterAdd c ret) := by
  rw [afterAdd]
  split
  · next hop =>
    split
    · next hret => exact hbug hret hop
    · exact hdrain
  · exact hdrain

/-- An accepted request sends its caller to `drain_queue`. -/
theorem afterAdd_zero (c : Call) : afterAdd c 0 = .loop c (.drain 0) :=
  afterAdd_of (P := (· = .loop c (.drain 0))) rfl fun hret => absurd rfl hret

/-- The atomic steps of the callers and of the hardware. -/
inductive Step : State ι → List (Event ι) → State ι → Prop
  | call {s : State ι} (i : ι) (c : Call) : s.pc i = .idle → Step s [] (s.goto i (.pressure c))
  | pressurePass {s : State ι} (i : ι) {c : Call} : s.pc i = .pressure c → s.pending < c.limit →
      Step s [] (s.goto i (.alloc c))
  | pressureBug {s : State ι} (i : ι) {c : Call} : s.pc i = .pressure c → c.limit ≤ s.pending →
      qpMaxSendWr < s.pending → Step s [] (s.goto i (.crashed .bug))
  | pressurePoll {s : State ι} (i : ι) {c : Call} : s.pc i = .pressure c → c.limit ≤ s.pending →
      s.pending ≤ qpMaxSendWr → Step s [] (s.goto i (.loop c (.target 0)))
  | loopPoll {s : State ι} (i : ι) {c : Call} {l : Loop} : s.pc i = .loop c l →
      l.KeepsPolling c s.pending → Step s [] (s.goto i (.lock c l))
  | targetLeave {s : State ι} (i : ι) {c : Call} {completed : ℕ} :
      s.pc i = .loop c (.target completed) → ¬ (Loop.target completed).KeepsPolling c s.pending →
      Step s [] (s.goto i (.pressure c))
  | drainLeave {s : State ι} (i : ι) {c : Call} {ret : ℤ} : s.pc i = .loop c (.drain ret) →
      ¬ (Loop.drain ret).KeepsPolling c s.pending → Step s [.returned i c ret] (s.goto i .idle)
  | lock {s : State ι} (i : ι) {c : Call} {l : Loop} : s.pc i = .lock c l → s.cqLock = none →
      Step s [] { s.goto i (.poll c l 0) with cqLock := some i }
  | reap {s : State ι} (i : ι) {c : Call} {l : Loop} {taken : ℕ} {r : Req} {status : WcStatus}
      {rest : List (Req × WcStatus)} : s.pc i = .poll c l taken → taken < l.budget c →
      s.cq = (r, status) :: rest →
      Step s [] { s.goto i (.handle c l (taken + 1) r r.call.op.done) with cq := rest }
  | handle {s : State ι} (i : ι) {c : Call} {l : Loop} {taken : ℕ} {r : Req} {k : HandlerStep}
      {left : List HandlerStep} : s.pc i = .handle c l taken r (k :: left) →
      Step s [.handled r k]
        { s.goto i (.handle c l taken r left) with pending := lowered s.pending k }
  | handlerDone {s : State ι} (i : ι) {c : Call} {l : Loop} {taken : ℕ} {r : Req} :
      s.pc i = .handle c l taken r [] → Step s [] (s.goto i (.poll c l taken))
  | unlock {s : State ι} (i : ι) {c : Call} {l : Loop} {taken : ℕ} : s.pc i = .poll c l taken →
      Step s [] { s.goto i (.loop c (l.polled taken)) with cqLock := none }
  | alloc {s : State ι} (i : ι) {c : Call} : s.pc i = .alloc c →
      Step s [.allocated i s.nextReq] { s.goto i (.map c s.nextReq) with nextReq := s.nextReq + 1 }
  | allocFail {s : State ι} (i : ι) {c : Call} : s.pc i = .alloc c →
      Step s [.allocFailed i] (s.goto i (.crashed .nullDeref))
  | map {s : State ι} (i : ι) {c : Call} {id : ℕ} (dma : ℕ) : s.pc i = .map c id →
      Step s [.mapped i ⟨id, c, dma⟩] (s.goto i (.raise c ⟨id, c, dma⟩))
  | mapFail {s : State ι} (i : ι) {c : Call} {id : ℕ} : s.pc i = .map c id →
      Step s [.mapFailed i, .badFree i] (s.goto i (afterAdd c (-enomem)))
  | raiseBug {s : State ι} (i : ι) {c : Call} {r : Req} : s.pc i = .raise c r → r.dma = 0 →
      Step s [] (s.goto i (.crashed .bug))
  | raise {s : State ι} (i : ι) {c : Call} {r : Req} : s.pc i = .raise c r → r.dma ≠ 0 →
      Step s [] { s.goto i (.post c r) with pending := s.pending + 1 }
  | post {s : State ι} (i : ι) {c : Call} {r : Req} : s.pc i = .post c r →
      Step s [.posted i r] { s.goto i (afterAdd c 0) with inflight := s.inflight ++ [r] }
  | postFail {s : State ι} (i : ι) {c : Call} {r : Req} (ret : ℤ) : s.pc i = .post c r → ret ≠ 0 →
      Step s [.postFailed i r ret] (s.goto i (afterAdd c ret))
  | complete {s : State ι} {before after : List Req} {r : Req} (status : WcStatus) :
      s.inflight = before ++ r :: after →
      Step s [] { s with inflight := before ++ after, cq := s.cq ++ [(r, status)] }

/-- A queue right after `sswap_rdma_init_queue`, with no call running. -/
def State.initial : State ι where
  pending := 0
  cqLock := none
  inflight := []
  cq := []
  nextReq := 0
  pc _ := .idle

/-- The queue and its callers from initialisation on. -/
def system (ι : Type) [DecidableEq ι] : Transition.System (State ι) (Event ι) where
  init s := s = State.initial
  step := Step

/-- `1` while a completion handler has not yet lowered the counter. -/
def Pc.handling : Pc → ℕ
  | .handle _ _ _ _ left => left.count .decPending
  | _ => 0

/-- `1` between the increment of a caller and its post. -/
def Pc.raised : Pc → ℕ
  | .post .. => 1
  | _ => 0

/-- The work requests accepted by `ib_post_send` whose handler has not yet run. -/
def State.unhandled [Fintype ι] (s : State ι) : ℕ :=
  s.inflight.length + s.cq.length + ∑ i, (s.pc i).handling

end Multiswap.Queue
