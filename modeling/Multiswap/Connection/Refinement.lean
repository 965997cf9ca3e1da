import Multiswap.Connection.Objects
import Multiswap.Lib.Simulation

/-!
# Handshakes left out

A load with its handshakes cannot be told from one of `Multiswap.Pairing` by the server:
what the connection manager does for a queue is to ask for a connection and to establish
it, and everything else about a handshake only decides whether the load goes on.
-/

namespace Multiswap.Connection

open Handshake (Answers Process Queue allGood)
open Pairing (Link numqueuesPerserver)
open Transition.System

/-- The event that the server has handled in a step. -/
def Event.served? : Event → Option (Server.CmEvent Link)
  | .served e => some e
  | _ => none

/-- The events that the server has handled in a run. -/
def served (tr : List Event) : List (Server.CmEvent Link) := tr.filterMap Event.served?

theorem served_append (tr ev : List Event) : served (tr ++ ev) = served tr ++ served ev :=
  List.filterMap_append ..

theorem served_map (es : List (Server.CmEvent Link)) : served (es.map .served) = es := by
  simp [served, List.filterMap_map, Function.comp_def, Event.served?]

theorem served_free (s : State) (l : List ℕ) : served (l.map s.free) = [] := by
  simp [served, List.filterMap_map, State.free, Event.served?]

variable {numcpus : ℕ → ℕ} {tr ev : List Event} {s s' : State} {cm cm' : Cm} {k : Answers}
  {q : Queue} {e : Handshake.CmEvent}

/-! ## Every handshake is a connect -/

/-- Nothing has been asked of the server. -/
def Cm.Quiet : Cm → Prop
  | .idle | .addr | .route => True
  | .connect | .refused | .established => False

/-- How the connection manager goes on, as far as the server is concerned. -/
inductive Goes (accepts : Bool) : Cm → Cm → Prop
  | quiet {cm cm' : Cm} : cm.Quiet → cm'.Quiet → Goes accepts cm cm'
  | same (cm : Cm) : Goes accepts cm cm
  | asks : Goes accepts .route .connect
  | establishes : accepts = true → Goes accepts .connect .established
  | refuses : Goes accepts .connect .refused

theorem goes_after (accepts : Bool) (h : cm.raises accepts e = true) :
    Goes accepts cm (cm.after k q e) := by
  cases cm with
  | idle | refused | established => cases e <;> exact .same _
  | addr =>
    cases e with
    | addrResolved =>
      refine .quiet trivial ?_
      simp only [Cm.after]
      split <;> trivial
    | addrError => exact .quiet trivial trivial
    | deviceRemoval | addrChange | other => exact .same _
    | _ => cases h
  | route =>
    cases e with
    | routeResolved =>
      simp only [Cm.after]
      split
      · exact .asks
      · exact .quiet trivial trivial
    | routeError => exact .quiet trivial trivial
    | deviceRemoval | addrChange | other => exact .same _
    | _ => cases h
  | connect =>
    cases e with
    | established => exact .establishes h
    | connectError | unreachable | rejected => exact .refuses
    | deviceRemoval | addrChange | other => exact .same _
    | _ => cases h

theorem Cm.Quiet.pairing (h : s.cm.Quiet) :
    s.pairing = ⟨s.server, s.load, s.up, false, s.pending⟩ := by
  obtain ⟨server, load, up, hs, cm, queues, pending⟩ := s
  cases cm <;> first | rfl | exact absurd h id

theorem Cm.Quiet.sends (h : cm'.Quiet) (l : Link) : cm.sends l cm' = [] := by
  cases cm <;> cases cm' <;> first | rfl | exact absurd h id

theorem sends_self (cm : Cm) (l : Link) : cm.sends l cm = [] := by
  cases cm <;> rfl

/-- A step that the server does not notice. -/
theorem stutters {t t' : Pairing.State} (hpairing : t' = t) :
    Steps (Pairing.system numcpus).step t [] t' := by
  rw [hpairing]
  exact .refl _

theorem acts {t t' : Pairing.State} {a : Pairing.Action} {es : List (Server.CmEvent Link)}
    (ha : Pairing.act numcpus t a = some (es, t')) : Steps (Pairing.system numcpus).step t es t' :=
  .single ⟨a, ha⟩

/-- An event of the connection manager is a step of the client, or none. -/
theorem Goes.follows (hup : s.up < numqueuesPerserver (numcpus s.load))
    (h : Goes (s.pairing.accepts (s.link s.up)) s.cm cm') (hs : Process) :
    Steps (Pairing.system numcpus).step s.pairing []
      (State.pairing { s with
        hs := hs
        cm := cm'
        pending := s.pending ++ s.cm.sends (s.link s.up) cm' }) := by
  obtain ⟨server, load, up, hs₀, cm, queues, pending⟩ := s
  cases h with
  | quiet hquiet hquiet' =>
    apply stutters
    rw [Cm.Quiet.pairing hquiet', Cm.Quiet.pairing hquiet, hquiet'.sends, List.append_nil]
  | same =>
    apply stutters
    simp only [sends_self, List.append_nil, State.pairing, State.connected]
  | asks =>
    apply acts (a := .connect)
    exact if_pos ⟨hup, rfl⟩
  | establishes haccepts =>
    apply acts (a := .established)
    exact if_pos ⟨rfl, haccepts⟩
  | refuses =>
    apply stutters
    simp [State.pairing, State.connected, Cm.sends]

theorem stops (s : State) :
    Steps (Pairing.system numcpus).step s.pairing [] s.ended.pairing := by
  apply acts (a := .stop)
  rfl

/-- The server changes its own state, and takes an event. -/
theorem server_frame {t t' : Pairing.State} {a : Pairing.Action} {es : List (Server.CmEvent Link)}
    (ha : Pairing.act numcpus t a = some (es, t'))
    (hne : a ≠ .connect ∧ a ≠ .established ∧ a ≠ .stop) :
    t' = { t with server := t'.server, pending := t'.pending } := by
  cases Pairing.act_moves ha with
  | connect => exact absurd rfl hne.1
  | established => exact absurd rfl hne.2.1
  | stop => exact absurd rfl hne.2.2
  | serve | other | noEvent => rfl

theorem Stands.cm_start {p : Process} (h : Stands cm p) (hp : p.phase = .start) : cm = .idle := by
  cases h with
  | start => rfl
  | waiting | destroying | succeeded | noId | failed => cases hp

/-- Each step is a step of a load without handshakes, or none. -/
theorem Inv.follows (h : Inv numcpus s) (hs : Moves numcpus s ev s') :
    Steps (Pairing.system numcpus).step s.pairing (served ev) s'.pairing := by
  cases hs with
  | begin createId resolveAddr hup hstart =>
    have hquiet : s.cm.Quiet := by
      rw [h.stands.cm_start hstart]
      trivial
    apply stutters
    rw [hquiet.pairing]
    refine Cm.Quiet.pairing ?_
    show Cm.Quiet (if createId = true ∧ resolveAddr = 0 then .addr else .idle)
    split <;> trivial
  | event k e hlistens hraises =>
    refine Goes.follows (h.below fun hstart => ?_) (goes_after _ hraises) _
    rw [hstart] at hlistens
    exact hlistens
  | wake | destroy => exact .refl _
  | next hret =>
    obtain ⟨hcm, -⟩ := h.stands.of_returned hret
    apply stutters
    simp [State.pairing, State.connected, hcm]
  | @unwind ret =>
    have hserved : served (.initQueue (s.link s.up) ret s.hs.queue ::
        (List.range s.up).reverse.map s.free) = [] := served_free s _
    rw [hserved]
    exact stops s
  | stopandfree =>
    rw [served_free]
    exact stops s
  | @server a _ _ hact hclient =>
    -- What the server does, it does in both.
    rw [served_map]
    apply acts (a := a)
    rw [hact, server_frame hact hclient]
    rfl

/-- A run with handshakes is, for the server, a run without them. -/
theorem run_pairing (h : (system numcpus).Run tr s) :
    (Pairing.system numcpus).Run (served tr) s.pairing := by
  induction h with
  | start hs =>
    obtain rfl : _ = State.initial := hs
    exact .start rfl
  | step hrun hs ih =>
    rw [served_append]
    exact ih.steps ((run_inv hrun).1.follows (moves hs))

/-! ## Every connect is a handshake -/

/-- A handshake whose handler has called `rdma_connect_locked`. -/
def asking (rdev : Bool) : Process :=
  (((Process.initial rdev).step (.begin true 0)).step (.event allGood .addrResolved)).step
    (.event allGood .routeResolved)

/-- Between two handshakes, or where a connection has been asked for. -/
structure Rests (numcpus : ℕ → ℕ) (s : State) : Prop where
  up : s.up ≤ numqueuesPerserver (numcpus s.load)
  hs : ∃ rdev, (s.hs = .initial rdev ∧ s.cm = .idle) ∨
    (s.hs = asking rdev ∧ s.cm = .connect ∧ s.up < numqueuesPerserver (numcpus s.load))

/-- A load without handshakes that is at `t` can go on to `t'`, and so can one with them. -/
def Realizes (numcpus : ℕ → ℕ) (s : State) (es : List (Server.CmEvent Link)) (t : Pairing.State) :
    Prop :=
  ∃ ev s', Steps (system numcpus).step s ev s' ∧ served ev = es ∧ s'.pairing = t ∧ Rests numcpus s'

variable {t : Pairing.State} {es : List (Server.CmEvent Link)} {rdev : Bool}

theorem realizes_connect (hup : s.up < numqueuesPerserver (numcpus s.load))
    (hhs : s.hs = .initial rdev) (hcm : s.cm = .idle) :
    Realizes numcpus s [] { s.pairing with
      requested := true
      pending := s.pending ++ [.connectRequest (s.link s.up) Pairing.connParam] } := by
  obtain ⟨server, load, up, hs, cm, queues, pending⟩ := s
  obtain rfl : hs = _ := hhs
  obtain rfl : cm = _ := hcm
  have hsteps := ((Steps.single ⟨.begin true 0, if_pos ⟨hup, rfl⟩⟩ :
      Steps (system numcpus).step _ _ _).tail
    ⟨.event allGood .addrResolved, if_pos ⟨trivial, rfl⟩⟩).tail
    ⟨.event allGood .routeResolved, if_pos ⟨by cases rdev <;> trivial, by cases rdev <;> rfl⟩⟩
  refine ⟨_, _, hsteps, rfl, ?_, ?_⟩
  · trans ⟨server, load, up, true,
      pending ++ [] ++ [.connectRequest ⟨load, up⟩ Pairing.connParam]⟩
    · cases rdev <;> rfl
    · rw [List.append_nil]
      rfl
  · refine ⟨hup.le, rdev, .inr ⟨?_, ?_, hup⟩⟩
    · cases rdev <;> rfl
    · cases rdev <;> rfl

theorem realizes_established (hup : s.up < numqueuesPerserver (numcpus s.load))
    (hhs : s.hs = asking rdev) (hcm : s.cm = .connect)
    (haccepts : s.pairing.accepts (s.link s.up) = true) :
    Realizes numcpus s [] { s.pairing with
      up := s.up + 1
      requested := false
      pending := s.pending ++ [.established (s.link s.up)] } := by
  obtain ⟨server, load, up, hs, cm, queues, pending⟩ := s
  obtain rfl : hs = _ := hhs
  obtain rfl : cm = _ := hcm
  have hsteps : Steps (system numcpus).step
      ⟨server, load, up, asking rdev, .connect, queues, pending⟩ _ _ :=
    .single ⟨.event allGood .established, if_pos ⟨by cases rdev <;> trivial, haccepts⟩⟩
  have hwaits := hsteps.tail ⟨.wake .completed, if_pos (by cases rdev <;> rfl)⟩
  have hnext := hwaits.tail ⟨.next, if_pos (by cases rdev <;> rfl)⟩
  refine ⟨_, _, hnext, rfl, rfl, hup, true, .inl ⟨?_, rfl⟩⟩
  cases rdev <;> rfl

theorem rests_ended (s : State) : Rests numcpus s.ended := ⟨Nat.zero_le _, false, .inl ⟨rfl, rfl⟩⟩

/-- The load ends with a handshake that has failed. -/
theorem realizes_unwind {s₁ : State} {ret : ℤ} (hsteps : Steps (system numcpus).step s ev s₁)
    (hev : served ev = []) (hphase : s₁.hs.phase = .returned ret) (hret : ret ≠ 0)
    (ht : s₁.ended.pairing = t) : Realizes numcpus s [] t := by
  have hact : act numcpus s₁ .unwind = some (.initQueue (s₁.link s₁.up) ret s₁.hs.queue ::
      (List.range s₁.up).reverse.map s₁.free, s₁.ended) := by
    simp only [act, hphase, ne_eq, hret, not_false_eq_true, if_true]
  refine ⟨_, _, hsteps.tail ⟨.unwind, hact⟩, ?_, ht, rests_ended s₁⟩
  rw [served_append, hev]
  exact served_free s₁ _

/-- It ends while a connection is asked for: the server cannot be reached. -/
theorem realizes_refused (hhs : s.hs = asking rdev) (hcm : s.cm = .connect) :
    Realizes numcpus s [] { s.pairing with
      load := s.load + 1
      up := 0
      requested := false
      pending := s.pending ++ (List.range s.up).map fun q => .disconnected (s.link q) } := by
  obtain ⟨server, load, up, hs, cm, queues, pending⟩ := s
  obtain rfl : hs = _ := hhs
  obtain rfl : cm = _ := hcm
  have hsteps : Steps (system numcpus).step
      ⟨server, load, up, asking rdev, .connect, queues, pending⟩ _ _ :=
    .single ⟨.event allGood .unreachable, if_pos ⟨by cases rdev <;> trivial, rfl⟩⟩
  have hwaits := hsteps.tail ⟨.wake .completed, if_pos (by cases rdev <;> rfl)⟩
  refine realizes_unwind (hwaits.tail ⟨.destroy, rfl⟩) rfl ?_
    (show (-104 : ℤ) ≠ 0 by decide) ?_
  · cases rdev <;> rfl
  · show Pairing.State.mk server (load + 1) 0 false (pending ++ [] ++ _) = _
    rw [List.append_nil]
    rfl

/-- It ends between two handshakes: there is no `rdma_cm_id` for the next queue, or the
module is removed. -/
theorem realizes_ended (hup : s.up ≤ numqueuesPerserver (numcpus s.load))
    (hhs : s.hs = .initial rdev) (hcm : s.cm = .idle) :
    Realizes numcpus s [] { s.pairing with
      load := s.load + 1
      up := 0
      requested := false
      pending := s.pending ++ (List.range s.up).map fun q => .disconnected (s.link q) } := by
  obtain ⟨server, load, up, hs, cm, queues, pending⟩ := s
  obtain rfl : hs = _ := hhs
  obtain rfl : cm = _ := hcm
  rcases hup.lt_or_eq with hlt | heq
  · have hsteps : Steps (system numcpus).step
        ⟨server, load, up, .initial rdev, .idle, queues, pending⟩ _ _ :=
      .single ⟨.begin false 0, if_pos ⟨hlt, rfl⟩⟩
    exact realizes_unwind hsteps rfl rfl (by decide) rfl
  · have hsteps : Steps (system numcpus).step
        ⟨server, load, up, .initial rdev, .idle, queues, pending⟩ _ _ :=
      .single ⟨.stopandfree, if_pos ⟨rfl, heq⟩⟩
    exact ⟨_, _, hsteps, served_free _ _, rfl, rests_ended _⟩

/-- What the server does. -/
theorem realizes_server (h : Rests numcpus s) {a : Action} {b : Pairing.Action}
    (ha : act numcpus s a = act.serverTurn numcpus s b)
    (hact : Pairing.act numcpus s.pairing b = some (es, t))
    (hne : b ≠ .connect ∧ b ≠ .established ∧ b ≠ .stop) : Realizes numcpus s es t := by
  have hstep : act numcpus s a =
      some (es.map .served, { s with server := t.server, pending := t.pending }) := by
    rw [ha, act.serverTurn, hact]
    rfl
  exact ⟨_, _, .single ⟨a, hstep⟩, served_map es, (server_frame hact hne).symm, h.up, h.hs⟩

/-- Each step of a load without handshakes is some steps of one with them. -/
theorem Rests.realizes (h : Rests numcpus s) {a : Pairing.Action}
    (ha : Pairing.act numcpus s.pairing a = some (es, t)) : Realizes numcpus s es t := by
  obtain ⟨rdev, hrest⟩ := h.hs
  have hup : s.pairing.up = s.up := by
    refine if_neg fun hcm => ?_
    rcases hrest with ⟨-, hidle⟩ | ⟨-, hconnect, -⟩
    · cases hcm.symm.trans hidle
    · cases hcm.symm.trans hconnect
  have hlink : s.pairing.link s.pairing.up = s.link s.up := by
    rw [hup]
    rfl
  cases Pairing.act_moves ha with
  | connect hlt hrequested =>
    rw [hup] at hlt
    rcases hrest with ⟨hhs, hcm⟩ | ⟨-, hcm, -⟩
    · rw [hlink]
      exact realizes_connect hlt hhs hcm
    · simp [State.pairing, hcm] at hrequested
  | established hrequested haccepts =>
    rw [hlink] at haccepts
    rcases hrest with ⟨-, hcm⟩ | ⟨hhs, hcm, hlt⟩
    · simp [State.pairing, hcm] at hrequested
    · rw [hlink, hup]
      exact realizes_established hlt hhs hcm haccepts
  | stop =>
    rw [hup]
    rcases hrest with ⟨hhs, hcm⟩ | ⟨hhs, hcm, -⟩
    · exact realizes_ended h.up hhs hcm
    · exact realizes_refused hhs hcm
  | @serve v k => exact realizes_server h (a := .serve v k) rfl ha (by simp)
  | other v l => exact realizes_server h (a := .other v l) rfl ha (by simp)
  | noEvent v => exact realizes_server h (a := .noEvent v) rfl ha (by simp)

theorem realized (h : (Pairing.system numcpus).Run es t) :
    ∃ tr s, (system numcpus).Run tr s ∧ served tr = es ∧ s.pairing = t ∧ Rests numcpus s := by
  induction h with
  | start hs =>
    obtain rfl : _ = Pairing.State.initial := hs
    exact ⟨[], .initial, .start rfl, rfl, rfl, Nat.zero_le _, false, .inl ⟨rfl, rfl⟩⟩
  | step _ hs ih =>
    obtain ⟨tr, s, hrun, rfl, rfl, hrest⟩ := ih
    obtain ⟨a, ha⟩ := hs
    obtain ⟨ev, s', hsteps, rfl, rfl, hrest'⟩ := hrest.realizes ha
    exact ⟨tr ++ ev, s', hrun.steps hsteps, served_append tr ev, rfl, hrest'⟩

/-- To the server the loads with handshakes are exactly those without: the same events, in
the same order, lead to the same states. -/
theorem reaches_iff (numcpus : ℕ → ℕ) (es : List (Server.CmEvent Link)) (t : Pairing.State) :
    (∃ tr s, (system numcpus).Run tr s ∧ served tr = es ∧ s.pairing = t) ↔
      (Pairing.system numcpus).Run es t := by
  constructor
  · rintro ⟨tr, s, hrun, rfl, rfl⟩
    exact run_pairing hrun
  · intro hrun
    obtain ⟨tr, s, hrun', hserved, hpairing, -⟩ := realized hrun
    exact ⟨tr, s, hrun', hserved, hpairing⟩

end Multiswap.Connection
