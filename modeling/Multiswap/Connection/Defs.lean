import Multiswap.Handshake.Objects
import Multiswap.Pairing.Defs

/-!
# Module loads with their handshakes

The client and its server as in `Multiswap.Pairing`, but with the handshakes of
`Multiswap.Handshake`: `sswap_rdma_init_queues` runs one after the other, their handlers
get the events that the connection manager raises for what they asked of it, and a wait
can end at any time.
-/

namespace Multiswap.Connection

open Handshake (Answers Resource Wakeup)
open Pairing (Link connParam numqueuesPerserver)

/-- What the connection manager does for the queue in its handshake. It raises one event
for each of these calls. -/
inductive Cm where
  | idle
  -- `rdma_resolve_addr` has returned 0.
  | addr
  -- `rdma_resolve_route` has returned 0.
  | route
  -- `rdma_connect_locked` has returned 0.
  | connect
  -- The connection that was asked for has failed.
  | refused
  | established
  deriving DecidableEq, Repr

namespace Cm

/-- The events that can be raised. `accepts` says that the server has accepted. This is an
assumption about the connection manager, whose code is not in the repository. It can also
raise `RDMA_CM_EVENT_TIMEWAIT_EXIT` after a refused connection; the handler prints that event
and does nothing else, so a run with it goes through the same states as the run without. -/
def raises (accepts : Bool) : Cm → Handshake.CmEvent → Bool
  | .addr, .addrResolved | .addr, .addrError => true
  | .route, .routeResolved | .route, .routeError => true
  | .connect, .established => accepts
  | .connect, .connectError | .connect, .unreachable | .connect, .rejected => true
  | .established, .disconnected | .established, .timewaitExit => true
  | _, .deviceRemoval | _, .addrChange | _, .other => true
  | _, _ => false

instance (k : Answers) (q : Handshake.Queue) : Decidable (k.Device q) :=
  inferInstanceAs (Decidable (_ ∨ _))

instance (k : Answers) (q : Handshake.Queue) (ev : Handshake.CmEvent) : Decidable (k.SetsUp q ev) :=
  inferInstanceAs (Decidable (_ ∧ _))

/-- After the handler has returned from an event that was raised. -/
def after (k : Answers) (q : Handshake.Queue) : Cm → Handshake.CmEvent → Cm
  -- The handler asks for the route once everything is set up.
  | .addr, .addrResolved => if k.SetsUp q .addrResolved then .route else .idle
  | .route, .routeResolved => if k.connect = 0 then .connect else .idle
  | .connect, .established => .established
  | .addr, .addrError | .route, .routeError => .idle
  | .connect, .connectError | .connect, .unreachable | .connect, .rejected => .refused
  | cm, _ => cm

/-- What the server gets when the connection manager goes on. -/
def sends (l : Link) : Cm → Cm → List (Server.CmEvent Link)
  | .route, .connect => [.connectRequest l connParam]
  | .connect, .established => [.established l]
  | _, _ => []

end Cm

/-- The server, the client and the events between them. -/
structure State where
  server : Server.Process Link
  -- The module loads that have ended.
  load : ℕ
  -- `i` of `sswap_rdma_init_queues`.
  up : ℕ
  -- The handshake of queue `i`, and what the connection manager does for it.
  hs : Handshake.Process
  cm : Cm
  -- The queues of this load below `i`.
  queues : ℕ → Handshake.Queue
  -- Events that the server has not handled.
  pending : List (Server.CmEvent Link)

/-- What a step shows. -/
inductive Event where
  -- The server has handled an event.
  | served (e : Server.CmEvent Link)
  -- `sswap_rdma_init_queue` has returned.
  | initQueue (l : Link) (ret : ℤ) (q : Handshake.Queue)
  -- `sswap_rdma_free_queue` has ended.
  | freeQueue (l : Link) (r : EStateM.Result Fault Handshake.Queue PUnit)

/-- `sswap_rdma_free_queue`. -/
def freeQueue : Handshake.M PUnit := do
  match (← get).qp with
  | none => throw .nullDeref
  | some n => Ledger.release (.qp n)
  Handshake.freeCq
  Ledger.release .cmId

namespace State

def initial : State where
  server := .initial Link
  load := 0
  up := 0
  hs := .initial false
  cm := .idle
  queues := fun _ => (Handshake.Process.initial false).queue
  pending := []

/-- Queue `q` of the current load. -/
def link (s : State) (q : ℕ) : Link := ⟨s.load, q⟩

/-- The connections of this load that are established. -/
def connected (s : State) : ℕ := if s.cm = .established then s.up + 1 else s.up

/-- `Multiswap.Pairing` leaves out the handshakes. -/
def pairing (s : State) : Pairing.State where
  server := s.server
  load := s.load
  up := s.connected
  requested := s.cm = .connect ∨ s.cm = .refused
  pending := s.pending

/-- Queue `q` is stopped and freed. -/
def free (s : State) (q : ℕ) : Event := .freeQueue (s.link q) (freeQueue (s.queues q))

/-- The load is over. All connections that are established disconnect: those of the
queues below `i` in `sswap_rdma_stop_queue`, and that of queue `i` in `rdma_destroy_id`. -/
def ended (s : State) : State :=
  { s with
    load := s.load + 1
    up := 0
    hs := .initial false
    cm := .idle
    pending := s.pending ++ (List.range s.connected).map fun q => .disconnected (s.link q) }

end State

/-- What can happen next. -/
inductive Action where
  -- `sswap_rdma_init_queue` up to its wait.
  | begin (createId : Bool) (resolveAddr : ℤ)
  -- The handler is called.
  | event (k : Answers) (ev : Handshake.CmEvent)
  | wake (w : Wakeup)
  -- `rdma_destroy_id` in `sswap_rdma_init_queue`.
  | destroy
  -- `sswap_rdma_init_queues` goes on to the next queue.
  | next
  -- `sswap_rdma_init_queues` frees the queues before the one that failed.
  | unwind
  -- `sswap_rdma_stopandfree_queues`.
  | stopandfree
  -- The server handles a pending event, another event, or gets none.
  | serve (v : Server.Verbs) (k : ℕ)
  | other (v : Server.Verbs) (l : Link)
  | noEvent (v : Server.Verbs)

/-- What an action does, and what it shows. -/
def act (numcpus : ℕ → ℕ) (s : State) : Action → Option (List Event × State)
  | .begin createId resolveAddr =>
    if s.up < numqueuesPerserver (numcpus s.load) ∧ s.hs.phase = .start then
      some ([], { s with
        hs := s.hs.step (.begin createId resolveAddr)
        cm := if createId = true ∧ resolveAddr = 0 then .addr else .idle })
    else none
  | .event k ev =>
    if s.hs.phase.Listens ∧ s.cm.raises (s.pairing.accepts (s.link s.up)) ev = true then
      some ([], { s with
        hs := s.hs.step (.event k ev)
        cm := s.cm.after k s.hs.queue ev
        pending := s.pending ++ s.cm.sends (s.link s.up) (s.cm.after k s.hs.queue ev) })
    else none
  | .wake w =>
    if s.hs.phase = .waiting then some ([], { s with hs := s.hs.step (.wake w) }) else none
  | .destroy => some ([], { s with hs := s.hs.step .destroy })
  | .next =>
    if s.hs.phase = .returned 0 then
      some ([.initQueue (s.link s.up) 0 s.hs.queue], { s with
        up := s.up + 1
        hs := .initial s.hs.queue.rdev
        cm := .idle
        queues := Function.update s.queues s.up s.hs.queue })
    else none
  | .unwind =>
    match s.hs.phase with
    | .returned ret =>
      if ret ≠ 0 then
        some (.initQueue (s.link s.up) ret s.hs.queue :: (List.range s.up).reverse.map s.free, s.ended)
      else none
    | _ => none
  | .stopandfree =>
    if s.hs.phase = .start ∧ s.up = numqueuesPerserver (numcpus s.load) then
      some ((List.range s.up).map s.free, s.ended)
    else none
  | .serve v k => serverTurn (.serve v k)
  | .other v l => serverTurn (.other v l)
  | .noEvent v => serverTurn (.noEvent v)
where
  serverTurn (a : Pairing.Action) : Option (List Event × State) :=
    (Pairing.act numcpus s.pairing a).map fun r =>
      (r.1.map .served, { s with server := r.2.server, pending := r.2.pending })

/-- The runs of the server and the client. -/
def system (numcpus : ℕ → ℕ) : Transition.System State Event :=
  .ofActions (fun s => s = .initial) (act numcpus)

/-- A list of actions that can be taken from the start makes a run. -/
theorem exists_run (numcpus : ℕ → ℕ) (as : List Action) (p : List Event → State → Prop)
    [∀ tr s, Decidable (p tr s)]
    (hp : (Transition.System.replay (act numcpus) State.initial as).any
      (fun r => decide (p r.1 r.2)) = true) : ∃ tr s, (system numcpus).Run tr s ∧ p tr s :=
  Transition.System.exists_run_of_replay (by rfl) as p hp

end Multiswap.Connection
