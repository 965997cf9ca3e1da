import Multiswap.Concurrent.Defs
import Multiswap.Queue.Stages

/-!
# Stores and loads over the queues

`sswap_store` and `sswap_load` as in `Multiswap.Concurrent`, but with transfers that
take time: a call picks the queue of its processor, `sswap_rdma_write` or
`sswap_rdma_read_sync` runs on that queue as in `Multiswap.Queue`, among all the other
callers of the queue, and the hardware moves the data at some moment between the post
and the completion. A call, its caller and its page are named by the pageid. As there,
every `xa_store` succeeds, and the processors have numbers below `numcpus`, so that
`sswap_rdma_get_queue` finds a queue.
-/

namespace Multiswap.Transport

open Concurrent (Op)
open Queue (Internal)
open Rdma (Host QpType WcStatus WrOpcode numServer sswapRdmaGetQueue)

/-- The queue `gctrl[dev]->queues[idx]`. -/
structure QueueId where
  dev : ℕ
  idx : ℕ
  deriving DecidableEq, Repr

/-- What `sswap_store` passes to `sswap_rdma_write`, or `sswap_load` to
`sswap_rdma_read_sync`. -/
structure Transfer where
  opcode : WrOpcode
  dev : ℕ
  roffset : ℕ
  deriving DecidableEq, Repr

variable {α : Type} {n : ℕ}

/-- The transfer that a call makes next, unless `roffset >= REMOTE_BUF_SIZE` refuses it. -/
def transfer? : Op α → Option Transfer
  | .storeWrite _ type roffset =>
    if roffset < remoteBufSize then some ⟨.rdmaWrite, type, roffset⟩ else none
  | .loadRead type roffset =>
    if roffset < remoteBufSize then some ⟨.rdmaRead, type, roffset⟩ else none
  | _ => none

/-- The type that `sswap_rdma_write` and `sswap_rdma_read_sync` ask for. -/
def queueType : WrOpcode → QpType
  | .rdmaWrite => .writeSync
  | .rdmaRead => .readSync

/-- The driver and its hardware. -/
structure State (α : Type) (n : ℕ) where
  -- The scheduler, the remote memory and the running calls.
  driver : Concurrent.State α
  -- The contents of the page of each pageid.
  pages : ℕ → α
  -- The queue that a call has picked.
  via : Fin n → Option QueueId
  queues : QueueId → Queue.State (Fin n)
  -- `remote_addr` of the posted requests, less the base address of the server.
  roffset : QueueId → Queue.Req → ℕ

/-- What a step shows. -/
inductive Event (α : Type) (n : ℕ) where
  | onQueue (q : QueueId) (e : Queue.Event (Fin n))
  -- The hardware has completed a work request.
  | completed (q : QueueId) (r : Queue.Req) (status : WcStatus)
  -- A store or a load returned.
  | returned (e : Concurrent.Event α)

namespace State

/-- Move the call of a pageid. -/
def setOp (s : State α n) (p : ℕ) (op : Op α) : State α n :=
  { s with driver := { s.driver with op := Function.update s.driver.op p op } }

/-- Replace one queue. -/
def setQueue (s : State α n) (q : QueueId) (t : Queue.State (Fin n)) : State α n :=
  { s with queues := Function.update s.queues q t }

/-- What the hardware moves for a work request. -/
def moveData (s : State α n) (q : QueueId) (r : Queue.Req) : WcStatus → State α n
  | .error _ => s
  | .success =>
    match r.call.op with
    | .rdmaWrite =>
      let memory := Function.update (s.driver.remote q.dev) (s.roffset q r) (s.pages r.call.page)
      { s with driver := { s.driver with remote := Function.update s.driver.remote q.dev memory } }
    | .rdmaRead =>
      { s with pages := Function.update s.pages r.call.page (s.driver.remote q.dev (s.roffset q r)) }

/-- How a call returns whose transfer returned `ret`. -/
def result (s : State α n) (p : ℕ) (ret : ℤ) : Concurrent.Event α :=
  match s.driver.op p with
  | .storeWrite page _ _ => .stored p page (if ret ≠ 0 then -1 else 0)
  | _ => if ret ≠ 0 then .loaded p (-1) none else .loaded p 0 (some (s.pages p))

end State

variable (cfg : Config) (host : Host)

/-- The steps of the calls, of their transfers and of the hardware. -/
inductive Step : State α n → List (Event α n) → State α n → Prop
  | callStore {s : State α n} (p : Fin n) (page : α) : s.driver.op p = .idle →
      Step s [] { s.setOp p (.storeLoad page false .clear) with
        pages := Function.update s.pages p page }
  -- The page of a load comes with some contents.
  | callLoad {s : State α n} (p : Fin n) (page : α) : s.driver.op p = .idle →
      Step s [] { s.setOp p .loadLookup with pages := Function.update s.pages p page }
  -- A step before the transfer, or instead of a transfer that is refused.
  | schedule {s : State α n} (p : Fin n) {op : Op α} {sched : Scheduler} {remote : ℕ → ℕ → α}
      {ev : List (Concurrent.Event α)} : s.driver.op p ≠ .idle → transfer? (s.driver.op p) = none →
      Concurrent.stepOp cfg p s.driver = .ok (op, sched, remote, ev) →
      Step s (ev.map .returned)
        { s with driver := ⟨sched, remote, Function.update s.driver.op p op⟩ }
  -- `sswap_rdma_get_queue`, and the call of `write_queue_add` or `read_queue_add`.
  | start {s : State α n} (p : Fin n) {x : Transfer} {q : QueueId} (cpuid : ℕ) :
      transfer? (s.driver.op p) = some x → s.via p = none → x.dev < numServer →
      cpuid < host.numcpus → q = ⟨x.dev, sswapRdmaGetQueue host cpuid (queueType x.opcode)⟩ →
      Step s [] { s.setQueue q ((s.queues q).goto p (.pressure ⟨x.opcode, p⟩)) with
        via := Function.update s.via p (some q) }
  | internal {s : State α n} (q : QueueId) {ev : List (Queue.Event (Fin n))}
      {t : Queue.State (Fin n)} : Internal (s.queues q) ev t →
      Step s (ev.map (.onQueue q)) (s.setQueue q t)
  | post {s : State α n} (q : QueueId) (p : Fin n) {x : Transfer} {r : Queue.Req}
      {t : Queue.State (Fin n)} : transfer? (s.driver.op p) = some x →
      Queue.Step (s.queues q) [.posted p r] t →
      Step s [.onQueue q (.posted p r)] { s.setQueue q t with
        roffset := Function.update s.roffset q (Function.update (s.roffset q) r x.roffset) }
  | complete {s : State α n} (q : QueueId) {before after : List Queue.Req} {r : Queue.Req}
      (status : WcStatus) : (s.queues q).inflight = before ++ r :: after →
      Step s [.completed q r status] ((s.moveData q r status).setQueue q
        { s.queues q with inflight := before ++ after, cq := (s.queues q).cq ++ [(r, status)] })
  -- `sswap_rdma_write` or `sswap_rdma_read_sync` returns, and with it the call.
  | leave {s : State α n} (q : QueueId) (p : Fin n) {c : Queue.Call} {ret : ℤ}
      {t : Queue.State (Fin n)} : Queue.Step (s.queues q) [.returned p c ret] t →
      Step s [.onQueue q (.returned p c ret), .returned (s.result p ret)]
        { (s.setOp p .idle).setQueue q t with via := Function.update s.via p none }

/-- The driver from `init_scheduler` on, with pageids below `n` and all queues
initialised. -/
def system (n : ℕ) (remote : ℕ → ℕ → α) : Transition.System (State α n) (Event α n) where
  init s := ∃ pages, s = ⟨⟨Scheduler.init, remote, fun _ => .idle⟩, pages, fun _ => none,
    fun _ => Queue.State.initial, fun _ _ => 0⟩
  step := Step cfg host

/-- What is seen on a queue. -/
def Event.on? (q : QueueId) : Event α n → Option (Queue.Event (Fin n))
  | .onQueue q' e => if q' = q then some e else none
  | _ => none

/-- What the swap core sees. -/
def Event.returned? : Event α n → Option (Concurrent.Event α)
  | .returned e => some e
  | _ => none

/-- The calls that have returned, with what they returned. -/
def returns (tr : List (Event α n)) : List (Concurrent.Event α) := tr.filterMap Event.returned?

/-- No mapping of a page has failed, and no work request has completed with an error. -/
structure Clean (tr : List (Event α n)) : Prop where
  mapped : ∀ q i, .onQueue q (.mapFailed i) ∉ tr
  moved : ∀ q r code, .completed q r (.error code) ∉ tr

/-- The pageid of a call that returned. -/
def pageidOf : Concurrent.Event α → ℕ
  | .stored p _ _ | .loaded p _ _ => p

/-- The page of a call could not be mapped, and no call of its pageid has returned since. -/
def Unmapped (p : ℕ) (tr : List (Event α n)) : Prop :=
  ∃ (before after : List (Event α n)) (q : QueueId) (i : Fin n),
    tr = before ++ .onQueue q (.mapFailed i) :: after ∧ i = p ∧ ∀ e ∈ returns after, pageidOf e ≠ p

/-- What the calls of one pageid returned. -/
def historyOf (p : ℕ) (tr : List (Concurrent.Event α)) : List (Concurrent.Event α) :=
  tr.filter fun e => pageidOf e = p

end Multiswap.Transport
