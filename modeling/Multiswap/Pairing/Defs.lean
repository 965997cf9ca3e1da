import Multiswap.Lib.Transition
import Multiswap.Server.Defs

/-!
# Module loads against one server

One `rmserver` process and the queues that client modules, loaded one after the
other, connect to it: `sswap_rdma_init_queues`, and `sswap_rdma_stop_queue` when
a load fails or the module is removed. What a client does reaches the server as
events that are handled in any order.
-/

namespace Multiswap.Pairing

open Server

/-- A queue of a module load. It names the connection that the queue asks for. -/
structure Link where
  load : ℕ
  queue : ℕ
  deriving DecidableEq, Repr

/-- `numqueues_perserver`. -/
def numqueuesPerserver (numcpus : ℕ) : ℕ := numcpus * 3

/-- The parameters of `sswap_rdma_route_resolved`. -/
def connParam : ConnParam where
  initiatorDepth := 16
  responderResources := 16
  rnrRetryCount := 7
  flowControl := 1

/-- The server, the client and the events between them. -/
structure State where
  server : Process Link
  -- The module loads that have ended.
  load : ℕ
  -- The queues of this load that are established, `i` of `sswap_rdma_init_queues`.
  up : ℕ
  -- Whether `rdma_connect_locked` was called for the queue after those.
  requested : Bool
  -- Events that the server has not handled.
  pending : List (CmEvent Link)

def State.initial : State where
  server := .initial Link
  load := 0
  up := 0
  requested := false
  pending := []

/-- Queue `q` of the current load. -/
def State.link (s : State) (q : ℕ) : Link := ⟨s.load, q⟩

/-- The server has called `rdma_accept` for a connection. -/
def State.accepts (s : State) (l : Link) : Bool :=
  s.server.globals.calls.any fun
    | .accept id _ => id = l
    | _ => false

/-- What can happen next. -/
inductive Action where
  -- The client asks for the next queue.
  | connect
  -- The client sees `RDMA_CM_EVENT_ESTABLISHED` for that queue.
  | established
  -- The load fails, or the module is removed.
  | stop
  -- The server handles the pending event at a position.
  | serve (v : Verbs) (k : ℕ)
  -- The server handles some other event of a connection.
  | other (v : Verbs) (l : Link)
  -- `rdma_get_cm_event` fails.
  | noEvent (v : Verbs)

/-- What an action does, and the events that the server handles in it. The
client has `numcpus l` online processors in load `l`. -/
def act (numcpus : ℕ → ℕ) (s : State) : Action → Option (List (CmEvent Link) × State)
  | .connect =>
    if s.up < numqueuesPerserver (numcpus s.load) ∧ s.requested = false then
      some ([], { s with
        requested := true
        pending := s.pending ++ [.connectRequest (s.link s.up) connParam] })
    else none
  | .established =>
    if s.requested = true ∧ s.accepts (s.link s.up) = true then
      some ([], { s with
        up := s.up + 1
        requested := false
        pending := s.pending ++ [.established (s.link s.up)] })
    else none
  | .stop =>
    -- Only the queues that are established disconnect.
    some ([], { s with
      load := s.load + 1
      up := 0
      requested := false
      pending := s.pending ++ (List.range s.up).map fun q => .disconnected (s.link q) })
  | .serve v k =>
    if s.server.InLoops then
      match s.pending[k]? with
      | none => none
      | some e =>
        some ([e], { s with server := s.server.turn v (some e), pending := s.pending.eraseIdx k })
    else none
  | .other v l =>
    if s.server.InLoops then
      some ([.other l], { s with server := s.server.turn v (some (.other l)) })
    else none
  | .noEvent v =>
    if s.server.InLoops then some ([], { s with server := s.server.turn v none }) else none

/-- The runs of the server and the client. A run shows the events that the server
handled. -/
def system (numcpus : ℕ → ℕ) : Transition.System State (CmEvent Link) :=
  .ofActions (fun s => s = .initial) (act numcpus)

/-- What an action can do, and when. -/
inductive Moves (numcpus : ℕ → ℕ) (s : State) : Action → List (CmEvent Link) → State → Prop
  | connect (hup : s.up < numqueuesPerserver (numcpus s.load)) (hrequested : s.requested = false) :
      Moves numcpus s .connect [] { s with
        requested := true
        pending := s.pending ++ [.connectRequest (s.link s.up) connParam] }
  | established (hrequested : s.requested = true) (haccepts : s.accepts (s.link s.up) = true) :
      Moves numcpus s .established [] { s with
        up := s.up + 1
        requested := false
        pending := s.pending ++ [.established (s.link s.up)] }
  | stop : Moves numcpus s .stop [] { s with
      load := s.load + 1
      up := 0
      requested := false
      pending := s.pending ++ (List.range s.up).map fun q => .disconnected (s.link q) }
  | serve (v : Verbs) {k : ℕ} {e : CmEvent Link} (hloops : s.server.InLoops)
      (he : s.pending[k]? = some e) :
      Moves numcpus s (.serve v k) [e]
        { s with server := s.server.turn v (some e), pending := s.pending.eraseIdx k }
  | other (v : Verbs) (l : Link) (hloops : s.server.InLoops) :
      Moves numcpus s (.other v l) [.other l]
        { s with server := s.server.turn v (some (.other l)) }
  | noEvent (v : Verbs) (hloops : s.server.InLoops) :
      Moves numcpus s (.noEvent v) [] { s with server := s.server.turn v none }

theorem act_moves {numcpus : ℕ → ℕ} {s s' : State} {a : Action} {ev : List (CmEvent Link)}
    (h : act numcpus s a = some (ev, s')) : Moves numcpus s a ev s' := by
  cases a with
  | connect =>
    obtain ⟨⟨hup, hrequested⟩, ⟨⟩⟩ := Option.ite_none_right_eq_some.mp h
    exact .connect hup hrequested
  | established =>
    obtain ⟨⟨hrequested, haccepts⟩, ⟨⟩⟩ := Option.ite_none_right_eq_some.mp h
    exact .established hrequested haccepts
  | stop =>
    cases h
    exact .stop
  | serve v k =>
    obtain ⟨hloops, h⟩ := Option.ite_none_right_eq_some.mp h
    split at h
    · cases h
    · next e he =>
      cases h
      exact .serve v hloops he
  | other v l =>
    obtain ⟨hloops, ⟨⟩⟩ := Option.ite_none_right_eq_some.mp h
    exact .other v l hloops
  | noEvent v =>
    obtain ⟨hloops, ⟨⟩⟩ := Option.ite_none_right_eq_some.mp h
    exact .noEvent v hloops

/-- A list of actions that can be taken from the start makes a run. -/
theorem exists_run (numcpus : ℕ → ℕ) (as : List Action) (p : List (CmEvent Link) → State → Prop)
    [∀ tr s, Decidable (p tr s)]
    (hp : (Transition.System.replay (act numcpus) State.initial as).any
      (fun r => decide (p r.1 r.2)) = true) : ∃ tr s, (system numcpus).Run tr s ∧ p tr s :=
  Transition.System.exists_run_of_replay (by rfl) as p hp

/-- Every queue of the current load is established. -/
def State.Complete (numcpus : ℕ → ℕ) (s : State) : Prop :=
  s.up = numqueuesPerserver (numcpus s.load)

instance (numcpus : ℕ → ℕ) (s : State) : Decidable (s.Complete numcpus) :=
  inferInstanceAs (Decidable (_ = _))

end Multiswap.Pairing
