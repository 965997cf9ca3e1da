import Multiswap.Server.History
import Multiswap.Server.Table

/-!
# Messages and queue pairs

The server posts messages on the connection of its entry 0 only, and an entry gets its
connection from one connect request and keeps it, whether handlers return or stop.
-/

namespace Multiswap.Server

open StateError

variable {κ : Type} {v : Verbs} {g g' : Globals κ}

/-- The memory after the end of `main`. -/
theorem exit_cases (g : Globals κ) : (Process.exit g).globals = g ∨
    ∃ mr, (Process.exit g).globals = { (g.log (.deregMr mr)).log .freeBuffer with device := none } := by
  rw [Process.exit]
  cases hd : g.device with
  | none =>
    have hexit : destroyDevice g = .error (.die .ctrlDev) g := by simp [destroyDevice, hd]
    rw [hexit]
    exact .inl rfl
  | some mr =>
    have hexit : destroyDevice g =
        .ok ⟨⟩ { (g.log (.deregMr mr)).log .freeBuffer with device := none } := by
      simp [destroyDevice, hd]
    rw [hexit]
    exact .inr ⟨mr, rfl⟩

/-- What a handler leads to, and the end of `main` keeps, holds after one turn. -/
theorem turn_of_onEvent [DecidableEq κ] {P : Globals κ → Prop} {p : Process κ} {e : CmEvent κ}
    (hsame : P p.globals) (hev : P (finalState (onEvent v e p.globals)))
    (hexit : ∀ g, P g → P (Process.exit g).globals) : P (p.turn v (some e)).globals := by
  obtain ⟨phase, g⟩ := p
  cases phase with
  | connecting i =>
    cases hrun : onEvent v e g with
    | ok ret g' =>
      rw [hrun] at hev
      simp only [Process.turn, hrun]
      split <;> exact hev
    | error a g' =>
      rw [hrun] at hev
      simp only [Process.turn, hrun]
      exact hev
  | serving =>
    cases hrun : onEvent v e g with
    | ok ret g' =>
      rw [hrun] at hev
      simp only [Process.turn, hrun]
      split
      · exact hexit g' hev
      · exact hev
    | error a g' =>
      rw [hrun] at hev
      simp only [Process.turn, hrun]
      exact hev
  | exited | died => exact hsame

/-- What one event can do to the queue pairs of the entries and to the messages: the entry of
a new request gets its connection, and messages go out on the connection of entry 0. -/
structure Handled (e : CmEvent κ) (g g' : Globals κ) : Prop where
  queueCtr : g.queueCtr ≤ g'.queueCtr
  qp : ∀ k id, (g'.queues k).qp = some id →
    (g.queues k).qp = some id ∨ e.request? = some id ∧ k.val = g.queueCtr
  posted : ∀ id r, .postSend id r ∈ g'.calls →
    .postSend id r ∈ g.calls ∨ ∃ k, k.val = 0 ∧ (g.queues k).qp = some id

theorem Handled.same (e : CmEvent κ) (g : Globals κ) : Handled e g g where
  queueCtr := Nat.le_refl _
  qp _ _ := .inl
  posted _ _ := .inl

/-- The end of `main` posts nothing. -/
theorem Handled.exit {e : CmEvent κ} (h : Handled e g g') : Handled e g (Process.exit g').globals := by
  obtain hsame | ⟨mr, hend⟩ := exit_cases g'
  · rwa [hsame]
  · rw [hend]
    exact ⟨h.queueCtr, h.qp, fun id r hmem => h.posted id r (by simpa using hmem)⟩

/-- A handler that changes the state of an entry. -/
theorem Handled.setState (e : CmEvent κ) (q : Fin numQueues) (st : QueueState) {sent : List (Call κ)}
    (hsent : ∀ id r, .postSend id r ∈ sent → q.val = 0 ∧ (g.queues q).qp = some id) :
    Handled e g
      { g.setQueue q { g.queues q with state := st } with calls := g.calls ++ sent } where
  queueCtr := Nat.le_refl _
  qp k _ hk := .inl ((setState_qp q k st).symm.trans hk)
  posted id r hmem := (List.mem_append.mp hmem).imp_right fun hs => ⟨q, hsent id r hs⟩

section Request

/-- Where `on_connect_request` for entry `q` stands, once it has set the entry up. -/
structure Requesting (g : Globals κ) (id : κ) (q : Fin numQueues) (g' : Globals κ) : Prop where
  queueCtr : g.queueCtr ≤ g'.queueCtr
  cmId : (g'.queues q).cmId = some id
  qp : ∀ k c, (g'.queues k).qp = some c → (g.queues k).qp = some c ∨ c = id ∧ k = q
  posted : ∀ c r, .postSend c r ∈ g'.calls → .postSend c r ∈ g.calls

variable {id : κ} {q : Fin numQueues}

theorem Requesting.log (h : Requesting g id q g') {c : Call κ} (hc : ∀ c' r, c ≠ .postSend c' r) :
    Requesting g id q (g'.log c) :=
  ⟨h.queueCtr, h.cmId, h.qp, fun c' r hmem => h.posted c' r <|
    (List.mem_append.mp hmem).resolve_right fun hlast => hc c' r (List.mem_singleton.mp hlast).symm⟩

theorem test_maintains {I : Globals κ → Prop} (ok : Bool) (t : Test) : Maintains I (test ok t) :=
  fun g hg => by cases ok <;> exact hg

theorem getDevice_maintains : Maintains (Requesting g id q) (getDevice v : Exec κ Unit) := by
  intro g' hg'
  simp only [getDevice, bind_apply, get_apply]
  split
  · refine Maintains.bind (test_maintains _ _) (fun _ => Maintains.bind (test_maintains _ _) fun _ =>
      Maintains.bind (test_maintains _ _) fun _ => Maintains.bind (test_maintains _ _) fun _ =>
      Maintains.bind (test_maintains _ _) fun _ => Maintains.modify fun g₁ h₁ => ?_) g' hg'
    exact ⟨h₁.queueCtr, h₁.cmId, h₁.qp, (h₁.log (by simp)).posted⟩
  · exact hg'

theorem createQp_maintains : Maintains (Requesting g id q) (createQp v q : Exec κ Unit) := by
  intro g' hg'
  simp only [createQp, bind_apply, get_apply, hg'.cmId, deref, pure_apply]
  cases v.fails .createQp with
  | true => exact hg'
  | false =>
    refine ⟨hg'.queueCtr, ?_, fun k c hc => ?_, (hg'.log (by simp)).posted⟩
    · simp [test]
    · by_cases hk : k = q
      · subst hk
        have hid : id = c := by simpa [test] using hc
        exact .inr ⟨hid.symm, rfl⟩
      · exact hg'.qp k c (by simpa [test, hk] using hc)

variable [DecidableEq κ]

theorem onConnectRequest_handled (id : κ) (param : ConnParam) :
    Handled (.connectRequest id param) g (finalState (onConnectRequest v id param g)) := by
  by_cases hlt : g.queueCtr < numQueues
  · have hrest : Maintains (Requesting g id ⟨g.queueCtr, hlt⟩) (do
        getDevice v
        createQp v ⟨g.queueCtr, hlt⟩
        test (!v.fails .queryDevice) .queryDevice
        test (!v.fails .accept) .accept
        modify fun s => s.log (.accept id param)
        return (0 : ℤ) : Exec κ ℤ) :=
      .bind getDevice_maintains fun _ => .bind createQp_maintains fun _ =>
        .bind (test_maintains _ _) fun _ => .bind (test_maintains _ _) fun _ =>
          .bind (.modify fun _ h => h.log (by simp)) fun _ => .pure _
    by_cases hinit : (g.queues ⟨g.queueCtr, hlt⟩).state = .init
    · have hstart : Requesting g id ⟨g.queueCtr, hlt⟩
          { g.setQueue ⟨g.queueCtr, hlt⟩ { g.queues ⟨g.queueCtr, hlt⟩ with cmId := some id } with
            queueCtr := g.queueCtr + 1
            context := Function.update g.context id (some ⟨g.queueCtr, hlt⟩) } := by
        refine ⟨Nat.le_succ _, by simp, fun k c hc => .inl ?_, fun c r hc => hc⟩
        by_cases hk : k = ⟨g.queueCtr, hlt⟩
        · subst hk
          simpa using hc
        · simpa [hk] using hc
      have hend := hrest _ hstart
      have hrun : Requesting g id ⟨g.queueCtr, hlt⟩
          (finalState (onConnectRequest v id param g)) := by
        simpa only [onConnectRequest, bind_apply, get_apply, set_apply, hlt, dite_true, hinit, test,
          decide_true, if_true, pure_apply, modify_apply, Globals.setQueue] using hend
      refine ⟨hrun.queueCtr, fun k c hc => ?_, fun c r hc => .inl (hrun.posted c r hc)⟩
      refine (hrun.qp k c hc).imp_right ?_
      rintro ⟨rfl, rfl⟩
      exact ⟨rfl, rfl⟩
    · have herr : onConnectRequest v id param g =
          .error (.die .stateInit) { g with queueCtr := g.queueCtr + 1 } := by
        simp [onConnectRequest, hlt, hinit, test]
      rw [herr]
      exact ⟨Nat.le_succ _, fun _ _ => .inl, fun _ _ => .inl⟩
  · rw [onConnectRequest_beyond hlt]
    exact ⟨Nat.le_succ _, fun _ _ => .inl, fun _ _ => .inl⟩

end Request

variable [DecidableEq κ]

theorem onEvent_handled (v : Verbs) (e : CmEvent κ) (g : Globals κ) :
    Handled e g (finalState (onEvent v e g)) := by
  cases e with
  | connectRequest id param => exact onConnectRequest_handled id param
  | established id =>
    simp only [onEvent, bind_apply, get_apply]
    cases hctx : g.context id with
    | none => exact .same _ g
    | some q =>
      simp only [deref, pure_apply]
      cases hrun : onConnection v q g with
      | error a g' =>
        cases onConnection_error hrun
        exact .same _ g
      | ok ret g' =>
        obtain ⟨-, -, sent, hzero, hpos, rfl⟩ := onConnection_ok hrun
        refine .setState _ q .connected fun c r hc => ?_
        by_cases hq : q.val = 0
        · obtain ⟨c', r', hqp, -, rfl⟩ := hzero hq
          cases List.mem_singleton.mp hc
          exact ⟨hq, hqp⟩
        · rw [hpos hq] at hc
          cases hc
  | disconnected id =>
    simp only [onEvent, bind_apply, get_apply]
    cases hctx : g.context id with
    | none => exact .same _ g
    | some q =>
      simp only [deref, pure_apply]
      cases hrun : onDisconnect q g with
      | error a g' =>
        cases onDisconnect_error hrun
        exact .same _ g
      | ok ret g' =>
        obtain ⟨-, ⟨-, rfl⟩ | ⟨c, -, -, rfl⟩⟩ := onDisconnect_ok hrun
        · exact .same _ g'
        · have h : Handled (.disconnected id) g
              { g.setQueue q { g.queues q with state := .init } with
                calls := g.calls ++ [.destroyQp c, .destroyId c] } := .setState _ q .init (by simp)
          exact ⟨h.queueCtr, h.qp, fun c' r hmem => h.posted c' r (by simpa using hmem)⟩
  | other id => exact .same _ g

theorem turn_handled (p : Process κ) (v : Verbs) (e : CmEvent κ) :
    Handled e p.globals (p.turn v (some e)).globals :=
  turn_of_onEvent (.same e _) (onEvent_handled v e _) fun _ h => h.exit

theorem turn_none_handled (p : Process κ) (v : Verbs) (e : CmEvent κ) :
    Handled e p.globals (p.turn v none).globals := by
  obtain ⟨phase, g⟩ := p
  cases phase with
  | serving => exact (Handled.same e g).exit
  | connecting | exited | died => exact .same e g

end Multiswap.Server
