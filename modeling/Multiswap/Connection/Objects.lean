import Multiswap.Connection.Defs
import Multiswap.Pairing.Handover

/-!
# What the handshakes of a load leave behind

With the events that the connection manager really raises, a handshake can be in a few
states only, told apart by its log: no handler follows a null pointer, a queue whose
handshake returned 0 has all its objects and can be freed, and of a queue whose handshake
failed the queue pair is left, if there was one.
-/

namespace Multiswap.Connection

open Handshake (Answers AllLive Handles LeavesNothing Phase Process Queue Resource)
open Ledger (settle)
open Pairing (Link numqueuesPerserver)
open Transition.System

/-- The queue has a completion queue and a queue pair. -/
structure Full (q : Queue) : Prop where
  cq : q.cq = .cq 0
  qp : q.qp = some 0
  rdev : q.rdev = true
  log : q.log = [.acquire .cmId, .acquire (.cq 0), .acquire (.qp 0)]

/-- What a handshake has created and freed so far. -/
inductive Made (q : Queue) : Prop
  | bare : q.qp = none → q.log = [.acquire .cmId] → Made q
  | noQp : q.qp = none → q.log = [.acquire .cmId, .acquire (.cq 0), .release (.cq 0)] → Made q
  | full : Full q → Made q
  | noCq : q.qp = some 0 →
      q.log = [.acquire .cmId, .acquire (.cq 0), .acquire (.qp 0), .release (.cq 0)] → Made q

/-- What a queue has where the connection manager is at `cm`. -/
structure Holds (cm : Cm) (q : Queue) : Prop where
  made : Made q
  addr : cm = .addr → q.qp = none ∧ q.next = 0 ∧ q.log = [.acquire .cmId]
  full : cm ∈ [.route, .connect, Cm.established] → Full q
  -- The wait can end well only once the connection is established.
  cmError : cm ≠ .established → q.cmError ≠ 0

/-- Where a handshake can stand. -/
inductive Stands : Cm → Process → Prop
  | start (rdev : Bool) : Stands .idle (.initial rdev)
  | waiting {cm : Cm} {q : Queue} {handled : List Handshake.CmEvent} (h : Holds cm q) :
      Stands cm ⟨.waiting, q, handled⟩
  | destroying {cm : Cm} {q : Queue} {handled : List Handshake.CmEvent} {ret : ℤ}
      (h : Holds cm q) (hret : ret ≠ 0) : Stands cm ⟨.destroying ret, q, handled⟩
  | succeeded {q : Queue} {handled : List Handshake.CmEvent} (h : Full q) :
      Stands .established ⟨.returned 0, q, handled⟩
  | noId {q : Queue} {handled : List Handshake.CmEvent} {ret : ℤ} (hret : ret ≠ 0)
      (hqp : q.qp = none) (hlog : q.log = []) : Stands .idle ⟨.returned ret, q, handled⟩
  | failed {cm : Cm} {q : Queue} {handled : List Handshake.CmEvent} {ret : ℤ} (h : Made q)
      (hret : ret ≠ 0) : Stands cm ⟨.returned ret, q.logged [.release .cmId], handled⟩

variable {cm : Cm} {k : Answers} {ev : Handshake.CmEvent} {q q' : Queue} {p : Process}
  {accepts : Bool}

theorem raises_addrResolved (h : cm.raises accepts .addrResolved = true) : cm = .addr := by
  cases cm <;> simp_all [Cm.raises]

theorem raises_routeResolved (h : cm.raises accepts .routeResolved = true) : cm = .route := by
  cases cm <;> simp_all [Cm.raises]

theorem raises_established (h : cm.raises accepts .established = true) : cm = .connect := by
  cases cm <;> simp_all [Cm.raises]

theorem Made.congr (h : Made q) (hcq : q'.cq = q.cq) (hqp : q'.qp = q.qp) (hrdev : q'.rdev = q.rdev)
    (hlog : q'.log = q.log) : Made q' := by
  cases h with
  | bare h₁ h₂ => exact .bare (hqp.trans h₁) (hlog.trans h₂)
  | noQp h₁ h₂ => exact .noQp (hqp.trans h₁) (hlog.trans h₂)
  | full h => exact .full ⟨hcq.trans h.cq, hqp.trans h.qp, hrdev.trans h.rdev, hlog.trans h.log⟩
  | noCq h₁ h₂ => exact .noCq (hqp.trans h₁) (hlog.trans h₂)

/-- Nothing is asked for any more, and the wait will not end well. -/
theorem Holds.over (h : Made q) (he : q.cmError ≠ 0) (hcm : cm = .idle ∨ cm = .refused) :
    Holds cm q := by
  refine ⟨h, ?_, ?_, fun _ => he⟩
  all_goals obtain rfl | rfl := hcm <;> simp

/-- The handler reports an error. -/
theorem Holds.reported (h : Made q) {e : ℤ} (he : e ≠ 0) (hcm : cm = .idle ∨ cm = .refused) :
    Holds cm (q.report e) :=
  .over (h.congr rfl rfl rfl rfl) he hcm

/-- After an address that was resolved, everything is set up or nothing is asked for. -/
theorem Holds.addrResolved (h : Holds .addr q) (hq : Handles k .addrResolved q q') :
    Holds (Cm.after k q .addr .addrResolved) q' := by
  obtain ⟨hqp, hnext, hlog⟩ := h.addr rfl
  have herr : q.cmError ≠ 0 := h.cmError (by decide)
  have hover : ¬ k.SetsUp q .addrResolved → Cm.after k q .addr .addrResolved = .idle :=
    fun hno => if_neg hno
  cases hq with
  | noDevice hdev =>
    rw [hover fun hs => hdev hs.2.1]
    exact .reported (.bare hqp hlog) (by decide) (.inl rfl)
  | noCq hdev hcq =>
    rw [hover fun hs => hcq hs.2.2.1]
    exact .reported (q := { q with rdev := true, cq := .err }) (.bare hqp hlog) hcq (.inl rfl)
  | noQp hdev hcq hnew =>
    rw [hover fun hs => hnew hs.2.2.2.1]
    refine .reported (q := q.withCq.logged _) (.noQp hqp ?_) hnew (.inl rfl)
    simp [Queue.logged, Queue.withCq, hlog, hnext]
  | noRoute hdev hcq hnew hroute =>
    rw [hover fun hs => hroute hs.2.2.2.2]
    refine .over (.noCq ?_ ?_) herr (.inl rfl)
    · simp [Queue.logged, Queue.withQp, hnext]
    · simp [Queue.logged, Queue.withQp, Queue.withCq, hlog, hnext]
  | resolved hdev hcq hnew hroute =>
    have hafter : Cm.after k q .addr .addrResolved = .route :=
      if_pos ⟨rfl, hdev, hcq, hnew, hroute⟩
    have hfull : Full (q.withQp.logged [.acquire (.cq q.next), .acquire (.qp q.next)]) := by
      constructor <;> simp [Queue.logged, Queue.withQp, Queue.withCq, hlog, hnext]
    rw [hafter]
    exact ⟨.full hfull, by simp, fun _ => hfull, fun _ => herr⟩
  | error hev | ignored hev => simp at hev

theorem Holds.routeResolved (h : Holds .route q) (hq : Handles k .routeResolved q q') :
    Holds (Cm.after k q .route .routeResolved) q' := by
  have hfull := h.full (by simp)
  have herr : q.cmError ≠ 0 := h.cmError (by decide)
  cases hq with
  | connecting hqp hdev hconnect =>
    have hafter : Cm.after k q .route .routeResolved = .connect := if_pos hconnect
    rw [hafter]
    exact ⟨.full hfull, by simp, fun _ => hfull, fun _ => herr⟩
  | noConnect hqp hdev hcq hconnect =>
    have hafter : Cm.after k q .route .routeResolved = .idle := if_neg hconnect
    rw [hafter]
    have hn := hcq.symm.trans hfull.cq
    cases hn
    refine .over (.noCq hfull.qp ?_) herr (.inl rfl)
    simp [Queue.logged, hfull.log]
  | error hev | ignored hev => simp at hev

theorem Holds.established (h : Holds .connect q) (hq : Handles k .established q q') :
    Holds (Cm.after k q .connect .established) q' := by
  have hfull := h.full (by simp)
  cases hq with
  | established =>
    have hfull' : Full (q.report 0) := ⟨hfull.cq, hfull.qp, hfull.rdev, hfull.log⟩
    exact ⟨.full hfull', by simp [Cm.after], fun _ => hfull', fun hne => absurd rfl hne⟩
  | error hev | ignored hev => simp at hev

/-- Where an error event leads. -/
theorem Holds.error (h : Holds cm q) (hev : cm.raises accepts ev = true) (hq : Handles k ev q q')
    (herror : ev ∈ [.addrError, .routeError, .connectError, Handshake.CmEvent.unreachable]) :
    Holds (cm.after k q ev) q' := by
  simp only [List.mem_cons, List.not_mem_nil, or_false] at herror
  have hreport : q' = q.report (-Handshake.econnreset) := by
    obtain rfl | rfl | rfl | rfl := herror
    all_goals
      cases hq with
      | error => rfl
      | ignored hno => simp at hno
  have hover : cm.after k q ev = .idle ∨ cm.after k q ev = .refused := by
    obtain rfl | rfl | rfl | rfl := herror <;> cases cm <;> simp_all [Cm.raises, Cm.after]
  rw [hreport]
  exact .reported h.made (by decide) hover

/-- An event that the handler ignores ends a connection that is asked for, or nothing. -/
theorem Holds.ignored (h : Holds cm q) (hev : cm.raises accepts ev = true)
    (hq : Handles k ev q q') (hignored : ev ∈ [.rejected, .disconnected, .addrChange,
      .timewaitExit, .deviceRemoval, Handshake.CmEvent.other]) :
    Holds (cm.after k q ev) q' := by
  simp only [List.mem_cons, List.not_mem_nil, or_false] at hignored
  have hsame : q' = q := by
    obtain rfl | rfl | rfl | rfl | rfl | rfl := hignored
    all_goals
      cases hq with
      | ignored => rfl
      | error hno => simp at hno
  rw [hsame]
  by_cases hafter : cm.after k q ev = cm
  · rwa [hafter]
  · have hover : cm = .connect ∧ cm.after k q ev = .refused := by
      obtain rfl | rfl | rfl | rfl | rfl | rfl := hignored <;> cases cm <;>
        simp_all [Cm.raises, Cm.after]
    obtain ⟨rfl, hrefused⟩ := hover
    exact .over h.made (h.cmError (by decide)) (.inr hrefused)

/-- The handler returns from every event that can be raised, and the queue keeps step with
the connection manager. -/
theorem Holds.event (h : Holds cm q) (hev : cm.raises accepts ev = true) :
    ∃ q', Handshake.cmHandler k ev q = .ok 0 q' ∧ Holds (cm.after k q ev) q' := by
  obtain ⟨q', hrun, hq⟩ | ⟨rfl, -, hcrash⟩ := Handshake.cmHandler_cases k ev q
  · refine ⟨q', hrun, ?_⟩
    cases ev with
    | addrResolved =>
      obtain rfl := raises_addrResolved hev
      exact h.addrResolved hq
    | routeResolved =>
      obtain rfl := raises_routeResolved hev
      exact h.routeResolved hq
    | established =>
      obtain rfl := raises_established hev
      exact h.established hq
    | addrError | routeError | connectError | unreachable => exact h.error hev hq (by simp)
    | rejected | disconnected | deviceRemoval | addrChange | timewaitExit | other =>
      exact h.ignored hev hq (by simp)
  · obtain rfl := raises_routeResolved hev
    have hfull := h.full (by simp)
    obtain hqp | hrdev | ⟨-, hcq⟩ := hcrash
    · rw [hfull.qp] at hqp
      cases hqp
    · rw [hfull.rdev] at hrdev
      cases hrdev
    · exact absurd hfull.cq (hcq 0)

/-! ## Handshakes -/

theorem Stands.begin (h : Stands cm p) (hp : p.phase = .start) (createId : Bool)
    (resolveAddr : ℤ) :
    Stands (if createId = true ∧ resolveAddr = 0 then .addr else .idle)
      (p.step (.begin createId resolveAddr)) := by
  cases h with
  | start rdev =>
    have hbare : Made (Process.initial rdev).queue.begun := .bare rfl rfl
    have herr : (Process.initial rdev).queue.begun.cmError ≠ 0 := by
      show -Handshake.etimedout ≠ 0
      decide
    cases createId with
    | false => exact .noId (by decide) rfl rfl
    | true =>
      by_cases hret : resolveAddr = 0
      · rw [if_pos ⟨rfl, hret⟩]
        subst hret
        exact .waiting ⟨hbare, fun _ => ⟨rfl, rfl, rfl⟩, by simp, fun _ => herr⟩
      · rw [if_neg fun hboth => hret hboth.2]
        simp only [Process.step, Process.initial, if_true, Bool.not_true, Bool.false_eq_true,
          if_false, ne_eq, hret, not_false_eq_true]
        exact .destroying (.over hbare herr (.inl rfl)) hret
  | waiting | destroying | succeeded | noId | failed => cases hp

theorem Stands.event (h : Stands cm p) (hp : p.phase.Listens)
    (hev : cm.raises accepts ev = true) :
    Stands (cm.after k p.queue ev) (p.step (.event k ev)) := by
  cases h with
  | waiting h =>
    obtain ⟨q', hrun, hq'⟩ := h.event (k := k) hev
    simp only [Process.step, hp, if_true, hrun]
    exact .waiting hq'
  | destroying h hret =>
    obtain ⟨q', hrun, hq'⟩ := h.event (k := k) hev
    simp only [Process.step, hp, if_true, hrun]
    exact .destroying hq' hret
  | start | succeeded | noId | failed => exact absurd hp id

/-- The wait ends well only with the connection established. -/
theorem Stands.wake (h : Stands cm p) (hp : p.phase = .waiting) (w : Handshake.Wakeup) :
    Stands cm (p.step (.wake w)) := by
  cases h with
  | @waiting _ q handled h =>
    simp only [Process.step, true_and]
    split
    · by_cases herr : q.cmError = 0
      · have hcm : cm = .established := by
          by_contra hno
          exact h.cmError hno herr
        simp only [herr, ne_eq, not_true_eq_false, if_false]
        subst hcm
        exact .succeeded (h.full (by simp))
      · simp only [ne_eq, herr, not_false_eq_true, if_true]
        exact .destroying h herr
    · exact .waiting h
  | start | destroying | succeeded | noId | failed => cases hp

theorem Stands.destroy (h : Stands cm p) : Stands cm (p.step .destroy) := by
  cases h with
  | start rdev => exact .start rdev
  | waiting h => exact .waiting h
  | destroying h hret => exact .failed h.made hret
  | succeeded h => exact .succeeded h
  | noId hret hqp hlog => exact .noId hret hqp hlog
  | failed h hret => exact .failed h hret

theorem Stands.not_crashed (h : Stands cm p) (f : Fault) : p.phase ≠ .crashed f := by
  cases h <;> exact Phase.noConfusion

theorem Stands.of_returned (h : Stands cm p) (hp : p.phase = .returned 0) :
    cm = .established ∧ Full p.queue := by
  cases h with
  | succeeded h => exact ⟨rfl, h⟩
  | start | waiting | destroying => cases hp
  | noId hret | failed _ hret =>
    cases hp
    exact absurd rfl hret

/-! ## Objects -/

theorem Full.allLive (h : Full q) : AllLive q where
  cmId := by simp [Queue.Live, h.log]
  cq := ⟨0, h.cq, by simp [Queue.Live, h.log]⟩
  qp := ⟨0, h.qp, by simp [Queue.Live, h.log]⟩

/-- A queue that has nothing, and never had a queue pair. -/
theorem leavesNothing_of_noQp (hs : settle q.log = some 0)
    (hqp : ∀ n, .acquire (.qp n) ∉ q.log) : LeavesNothing q where
  balanced := (Ledger.balanced_iff hs).mpr rfl
  qpFirst n _ _ _ hacq := absurd hacq (hqp n)

/-- What a handshake that failed leaves: at most its queue pair and its completion queue,
and nothing only if there was no queue pair. -/
structure Leaves (q : Queue) : Prop where
  objects : ∃ H ∈ [0, {.qp 0}, {.cq 0, .qp 0}], settle q.log = some H
  nothing : LeavesNothing q ↔ q.qp = none

theorem leaves_of_noQp (hs : settle q.log = some 0) (hqp : q.qp = none)
    (hnew : ∀ n, .acquire (.qp n) ∉ q.log) : Leaves q where
  objects := ⟨0, by simp, hs⟩
  nothing := iff_of_true (leavesNothing_of_noQp hs hnew) hqp

theorem leaves_of_qp {H : Multiset Resource} (hs : settle q.log = some H)
    (hH : H ∈ [{.qp 0}, {.cq 0, .qp 0}]) (hqp : q.qp = some 0) : Leaves q where
  objects := ⟨H, List.mem_cons_of_mem _ hH, hs⟩
  nothing := by
    refine iff_of_false (fun h => ?_) (by simp [hqp])
    obtain rfl := (Ledger.balanced_iff hs).mp h.balanced
    simp at hH

theorem Made.leaves (h : Made q) : Leaves (q.logged [.release .cmId]) := by
  cases h with
  | bare hqp hlog =>
    refine leaves_of_noQp ?_ hqp (by simp [Queue.logged, hlog])
    simp only [Queue.logged, hlog]
    rfl
  | noQp hqp hlog =>
    refine leaves_of_noQp ?_ hqp (by simp [Queue.logged, hlog])
    simp only [Queue.logged, hlog]
    rfl
  | full h =>
    refine leaves_of_qp (H := {.cq 0, .qp 0}) ?_ (by simp) h.qp
    simp only [Queue.logged, h.log]
    decide
  | noCq hqp hlog =>
    refine leaves_of_qp (H := {.qp 0}) ?_ (by simp) hqp
    simp only [Queue.logged, hlog]
    decide

theorem Stands.leaves (h : Stands cm p) {ret : ℤ} (hp : p.phase = .returned ret) (hret : ret ≠ 0) :
    Leaves p.queue := by
  cases h with
  | noId _ hqp hlog =>
    refine leaves_of_noQp ?_ hqp (by simp [hlog])
    rw [hlog]
    rfl
  | failed h => exact h.leaves
  | succeeded =>
    cases hp
    exact absurd rfl hret
  | start | waiting | destroying => cases hp

/-- A queue that is up can be freed, and leaves nothing. -/
theorem Full.freeQueue (h : Full q) : ∃ q', freeQueue q = .ok ⟨⟩ q' ∧ LeavesNothing q' := by
  refine ⟨q.logged [.release (.qp 0), .release (.cq 0), .release .cmId], ?_, ?_, ?_⟩
  · simp [Connection.freeQueue, Handshake.freeCq, h.cq, h.qp, Queue.logged,
      StateError.bind_apply, StateError.get_apply]
  · refine (Ledger.balanced_iff (H := 0) ?_).mpr rfl
    simp only [Queue.logged, h.log]
    decide
  · intro n before rest heq hacq
    have hbefore : n = 0 ∧ before = [.acquire .cmId, .acquire (.cq 0), .acquire (.qp 0),
        .release (.qp 0)] := by
      simp only [Queue.logged, h.log] at heq
      simp [List.cons_eq_append_iff] at heq
      exact ⟨heq.2.1, heq.1⟩
    obtain ⟨rfl, rfl⟩ := hbefore
    simp

/-! ## Steps -/

variable {numcpus : ℕ → ℕ} {tr ev : List Event} {s s' : State}

/-- What a step can do, and when. -/
inductive Moves (numcpus : ℕ → ℕ) (s : State) : List Event → State → Prop
  | begin (createId : Bool) (resolveAddr : ℤ)
      (hup : s.up < numqueuesPerserver (numcpus s.load)) (hstart : s.hs.phase = .start) :
      Moves numcpus s [] { s with
        hs := s.hs.step (.begin createId resolveAddr)
        cm := if createId = true ∧ resolveAddr = 0 then .addr else .idle }
  | event (k : Answers) (ev : Handshake.CmEvent) (hlistens : s.hs.phase.Listens)
      (hraises : s.cm.raises (s.pairing.accepts (s.link s.up)) ev = true) :
      Moves numcpus s [] { s with
        hs := s.hs.step (.event k ev)
        cm := s.cm.after k s.hs.queue ev
        pending := s.pending ++ s.cm.sends (s.link s.up) (s.cm.after k s.hs.queue ev) }
  | wake (w : Handshake.Wakeup) (hwaiting : s.hs.phase = .waiting) :
      Moves numcpus s [] { s with hs := s.hs.step (.wake w) }
  | destroy : Moves numcpus s [] { s with hs := s.hs.step .destroy }
  | next (hret : s.hs.phase = .returned 0) :
      Moves numcpus s [.initQueue (s.link s.up) 0 s.hs.queue] { s with
        up := s.up + 1
        hs := .initial s.hs.queue.rdev
        cm := .idle
        queues := Function.update s.queues s.up s.hs.queue }
  | unwind {ret : ℤ} (hphase : s.hs.phase = .returned ret) (hret : ret ≠ 0) :
      Moves numcpus s (.initQueue (s.link s.up) ret s.hs.queue ::
        (List.range s.up).reverse.map s.free) s.ended
  | stopandfree : Moves numcpus s ((List.range s.up).map s.free) s.ended
  | server {a : Pairing.Action} {es : List (Server.CmEvent Link)} {t : Pairing.State}
      (hact : Pairing.act numcpus s.pairing a = some (es, t))
      (hclient : a ≠ .connect ∧ a ≠ .established ∧ a ≠ .stop) :
      Moves numcpus s (es.map .served) { s with server := t.server, pending := t.pending }

theorem serverTurn_moves {a : Pairing.Action} (ha : act.serverTurn numcpus s a = some (ev, s'))
    (hclient : a ≠ .connect ∧ a ≠ .established ∧ a ≠ .stop) : Moves numcpus s ev s' := by
  simp only [act.serverTurn, Option.map_eq_some_iff, Prod.mk.injEq] at ha
  obtain ⟨⟨es, t⟩, hact, rfl, rfl⟩ := ha
  exact .server hact hclient

theorem moves (h : (system numcpus).step s ev s') : Moves numcpus s ev s' := by
  obtain ⟨a, ha⟩ := h
  cases a with
  | begin createId resolveAddr =>
    obtain ⟨⟨hup, hstart⟩, ⟨⟩⟩ := Option.ite_none_right_eq_some.mp ha
    exact .begin createId resolveAddr hup hstart
  | event k e =>
    obtain ⟨⟨hlistens, hraises⟩, ⟨⟩⟩ := Option.ite_none_right_eq_some.mp ha
    exact .event k e hlistens hraises
  | wake w =>
    obtain ⟨hwaiting, ⟨⟩⟩ := Option.ite_none_right_eq_some.mp ha
    exact .wake w hwaiting
  | destroy =>
    cases ha
    exact .destroy
  | next =>
    obtain ⟨hret, ⟨⟩⟩ := Option.ite_none_right_eq_some.mp ha
    exact .next hret
  | stopandfree =>
    obtain ⟨-, ⟨⟩⟩ := Option.ite_none_right_eq_some.mp ha
    exact .stopandfree
  | unwind =>
    simp only [act] at ha
    split at ha
    · next ret hphase =>
      obtain ⟨hret, ⟨⟩⟩ := Option.ite_none_right_eq_some.mp ha
      exact .unwind hphase hret
    · cases ha
  | serve | other | noEvent => exact serverTurn_moves ha (by simp)

/-! ## Runs -/

/-- What a run shows of the objects of the client. -/
def Shown : Event → Prop
  | .served _ => True
  | .initQueue _ ret q => (ret = 0 → AllLive q) ∧ (ret ≠ 0 → Leaves q)
  | .freeQueue _ r => ∃ q, r = .ok ⟨⟩ q ∧ LeavesNothing q

/-- Where the handshakes of a load stand. -/
structure Inv (numcpus : ℕ → ℕ) (s : State) : Prop where
  stands : Stands s.cm s.hs
  below : s.hs.phase ≠ .start → s.up < numqueuesPerserver (numcpus s.load)
  full : ∀ q < s.up, Full (s.queues q)

theorem inv_initial : Inv numcpus State.initial where
  stands := .start false
  below h := absurd rfl h
  full _ hq := absurd hq (Nat.not_lt_zero _)

theorem inv_ended (s : State) : Inv numcpus s.ended where
  stands := .start false
  below h := absurd rfl h
  full _ hq := absurd hq (Nat.not_lt_zero _)

theorem Inv.shown_free (h : Inv numcpus s) {e : Event} {l : List ℕ} (hl : ∀ q ∈ l, q < s.up)
    (he : e ∈ l.map s.free) : Shown e := by
  obtain ⟨q, hq, rfl⟩ := List.mem_map.mp he
  exact (h.full q (hl q hq)).freeQueue

theorem Inv.step (h : Inv numcpus s) (hs : Moves numcpus s ev s') :
    Inv numcpus s' ∧ ∀ e ∈ ev, Shown e := by
  cases hs with
  | begin createId resolveAddr hup hstart =>
    exact ⟨⟨h.stands.begin hstart createId resolveAddr, fun _ => hup, h.full⟩, by simp⟩
  | event k e hlistens hraises =>
    refine ⟨⟨h.stands.event hlistens hraises, fun _ => h.below ?_, h.full⟩, by simp⟩
    intro hstart
    rw [hstart] at hlistens
    exact hlistens
  | wake w hwaiting =>
    refine ⟨⟨h.stands.wake hwaiting w, fun _ => h.below ?_, h.full⟩, by simp⟩
    rw [hwaiting]
    exact Phase.noConfusion
  | destroy =>
    refine ⟨⟨h.stands.destroy, fun hne => h.below fun hstart => hne ?_, h.full⟩, by simp⟩
    simp [Process.step, hstart]
  | next hret =>
    obtain ⟨-, hfull⟩ := h.stands.of_returned hret
    refine ⟨⟨.start _, fun hne => absurd rfl hne, fun q hq => ?_⟩, ?_⟩
    · show Full (Function.update s.queues s.up s.hs.queue q)
      rcases Nat.lt_succ_iff_lt_or_eq.mp hq with hlt | rfl
      · rw [Function.update_of_ne hlt.ne]
        exact h.full q hlt
      · rwa [Function.update_self]
    · intro e he
      rw [List.mem_singleton.mp he]
      exact ⟨fun _ => hfull.allLive, fun hne => absurd rfl hne⟩
  | unwind hphase hret =>
    refine ⟨inv_ended s, fun e he => ?_⟩
    rcases List.mem_cons.mp he with rfl | he
    · exact ⟨fun hzero => absurd hzero hret, h.stands.leaves hphase⟩
    · exact h.shown_free (by simp) he
  | stopandfree => exact ⟨inv_ended s, fun e he => h.shown_free (by simp) he⟩
  | server =>
    refine ⟨⟨h.stands, h.below, h.full⟩, fun e he => ?_⟩
    obtain ⟨e', -, rfl⟩ := List.mem_map.mp he
    trivial

theorem run_inv (h : (system numcpus).Run tr s) : Inv numcpus s ∧ ∀ e ∈ tr, Shown e := by
  refine h.invariant (I := fun tr s => Inv numcpus s ∧ ∀ e ∈ tr, Shown e) (fun s hs => ?_) ?_
  · obtain rfl : s = .initial := hs
    exact ⟨inv_initial, by simp⟩
  · intro tr s ev s' _ ⟨hi, hshown⟩ hs
    obtain ⟨hi', hev⟩ := hi.step (moves hs)
    refine ⟨hi', fun e he => ?_⟩
    exact (List.mem_append.mp he).elim (hshown e) (hev e)

/-- No handler of a handshake crashes. A queue whose handshake returned 0 has all its objects
and can be freed, with nothing left. One whose handshake failed leaves its queue pair if it
had one, perhaps with its completion queue, and nothing else. -/
theorem objects_left (h : (system numcpus).Run tr s) :
    (∀ f, s.hs.phase ≠ .crashed f) ∧
      (∀ l q, .initQueue l 0 q ∈ tr → AllLive q) ∧
      (∀ l ret q, .initQueue l ret q ∈ tr → ret ≠ 0 →
        (∃ H ∈ [0, {.qp 0}, {.cq 0, .qp 0}], settle q.log = some H) ∧
          (LeavesNothing q ↔ q.qp = none)) ∧
      ∀ l r, .freeQueue l r ∈ tr → ∃ q, r = .ok ⟨⟩ q ∧ LeavesNothing q := by
  obtain ⟨hi, hshown⟩ := run_inv h
  refine ⟨fun f hf => ?_, fun l q hq => (hshown _ hq).1 rfl, fun l ret q hq hret => ?_,
    fun l r hr => hshown _ hr⟩
  · exact hi.stands.not_crashed f hf
  · have hleaves := (hshown _ hq).2 hret
    exact ⟨hleaves.objects, hleaves.nothing⟩

/-- A queue is connected, and the server handles both events at once. -/
def connectQueue : List Action :=
  [.begin true 0, .event Handshake.allGood .addrResolved, .event Handshake.allGood .routeResolved,
    .serve Pairing.answers 0, .event Handshake.allGood .established, .serve Pairing.answers 0,
    .wake .completed, .next]

/-- The server cannot be reached for the next queue. -/
def failQueue : List Action :=
  [.begin true 0, .event Handshake.allGood .addrResolved, .event Handshake.allGood .routeResolved,
    .event Handshake.allGood .unreachable, .wake .completed, .destroy, .unwind]

/-- A queue pair is left of the second queue, and nothing of the first. -/
theorem objects_left_unwound : ∃ q₀ q₁ q, AllLive q₀ ∧
    (q₁.qp = some 0 ∧ ¬ LeavesNothing q₁) ∧ LeavesNothing q := by
  obtain ⟨tr, s, hrun, hup, hleft, hfreed⟩ := exists_run (fun _ => 1) (connectQueue ++ failQueue)
    (fun tr _ =>
      (tr.any fun | .initQueue _ ret _ => decide (ret = 0) | _ => false) = true ∧
      (tr.any fun | .initQueue _ ret q => decide (ret ≠ 0 ∧ q.qp = some 0) | _ => false) = true ∧
      (tr.any fun | .freeQueue _ _ => true | _ => false) = true) rfl
  obtain ⟨-, hzero, hfails, hfree⟩ := objects_left hrun
  obtain ⟨e₀, he₀, hok₀⟩ := List.any_eq_true.mp hup
  obtain ⟨e₁, he₁, hok₁⟩ := List.any_eq_true.mp hleft
  obtain ⟨e, he, hok⟩ := List.any_eq_true.mp hfreed
  cases e₀ with
  | served | freeQueue => cases hok₀
  | initQueue l₀ ret q₀ =>
    obtain rfl := of_decide_eq_true hok₀
    cases e₁ with
    | served | freeQueue => cases hok₁
    | initQueue l₁ ret q₁ =>
      obtain ⟨hret, hqp⟩ := of_decide_eq_true hok₁
      cases e with
      | served | initQueue => cases hok
      | freeQueue l r =>
        obtain ⟨q, -, hnothing⟩ := hfree l r he
        refine ⟨q₀, q₁, q, hzero l₀ q₀ he₀, ⟨hqp, fun hno => ?_⟩, hnothing⟩
        rw [(hfails l₁ ret q₁ he₁ hret).2, hqp] at hno
        cases hno

end Multiswap.Connection
