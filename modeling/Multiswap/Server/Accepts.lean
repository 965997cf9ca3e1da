import Multiswap.Server.Messages

/-!
# Accepted connections

The server accepts a connection only in `on_connect_request`, at its end, and there is one
entry of the table for each connection that it accepts.
-/

namespace Multiswap.Server

open StateError

variable {κ : Type} {v : Verbs} {g g' : Globals κ}

/-- The connection that a call accepts. -/
def Call.accepted? : Call κ → Option κ
  | .accept id _ => some id
  | _ => none

/-- The connections for which `rdma_accept` was called, in their order. -/
def Globals.acceptedIds (g : Globals κ) : List κ := g.calls.filterMap Call.accepted?

theorem acceptedIds_append {calls : List (Call κ)} (h : g'.calls = g.calls ++ calls) :
    g'.acceptedIds = g.acceptedIds ++ calls.filterMap Call.accepted? := by
  rw [Globals.acceptedIds, h, List.filterMap_append]
  rfl

theorem acceptedIds_log {c : Call κ} (hc : c.accepted? = none) :
    (g.log c).acceptedIds = g.acceptedIds := by
  rw [acceptedIds_append rfl]
  simp [hc]

/-- What one event can do to the accepted connections. -/
inductive Accepting (e : CmEvent κ) (g g' : Globals κ) : Prop
  | same : g'.acceptedIds = g.acceptedIds → Accepting e g g'
  | one {id : κ} {param : ConnParam} : e = .connectRequest id param →
      g'.acceptedIds = g.acceptedIds ++ [id] → g.queueCtr < numQueues →
      g'.queueCtr = g.queueCtr + 1 → Accepting e g g'

/-- The end of `main` accepts nothing. -/
theorem Accepting.exit {e : CmEvent κ} (h : Accepting e g g') :
    Accepting e g (Process.exit g').globals := by
  obtain hsame | ⟨mr, hend⟩ := exit_cases g'
  · rwa [hsame]
  · have hids : (Process.exit g').globals.acceptedIds = g'.acceptedIds := by
      rw [hend]
      show ((g'.log (.deregMr mr)).log .freeBuffer).acceptedIds = g'.acceptedIds
      rw [acceptedIds_log rfl, acceptedIds_log rfl]
    have hctr : (Process.exit g').globals.queueCtr = g'.queueCtr := by rw [hend]; rfl
    cases h with
    | same heq => exact .same (hids.trans heq)
    | one he heq hlt hnext => exact .one he (hids.trans heq) hlt (hctr.trans hnext)

theorem getDevice_acceptedIds : Keeps Globals.acceptedIds (getDevice v : Exec κ Unit) := by
  refine .bind .get fun g => .ite ?_ (.pure _)
  refine .bind (test_keeps _ _) fun _ => .bind (test_keeps _ _) fun _ => .bind (test_keeps _ _)
    fun _ => .bind (test_keeps _ _) fun _ => .bind (test_keeps _ _) fun _ => .modify fun g => ?_
  exact acceptedIds_log rfl

theorem createQp_acceptedIds (q : Fin numQueues) :
    Keeps Globals.acceptedIds (createQp v q : Exec κ Unit) := by
  refine .bind .get fun g => .bind ?_ fun id => .bind (test_keeps _ _) fun _ => .modify fun g => ?_
  · cases (g.queues q).cmId with
    | none => exact .throw _
    | some id => exact .pure id
  · exact acceptedIds_log rfl

/-- The accepted connections are counted by `queue_ctr`, and fit into the table. -/
structure AcceptedFit (g : Globals κ) : Prop where
  counted : g.acceptedIds.length ≤ g.queueCtr
  fit : g.acceptedIds.length ≤ numQueues

theorem acceptedFit_initial : AcceptedFit (Globals.initial κ) := ⟨Nat.le_refl _, Nat.zero_le _⟩

theorem AcceptedFit.accepting (h : AcceptedFit g) {e : CmEvent κ} (ha : Accepting e g g')
    (hctr : g.queueCtr ≤ g'.queueCtr) : AcceptedFit g' := by
  cases ha with
  | same heq => exact ⟨heq ▸ Nat.le_trans h.counted hctr, heq ▸ h.fit⟩
  | one _ heq hlt hnext =>
    have hlen : g'.acceptedIds.length = g.acceptedIds.length + 1 := by rw [heq]; simp
    have hcounted := h.counted
    constructor <;> omega

variable [DecidableEq κ]

/-- A handler that stops has accepted nothing. -/
theorem onConnectRequest_stopped {id : κ} {param : ConnParam} {a : Abort}
    (h : onConnectRequest v id param g = .error a g') : g'.acceptedIds = g.acceptedIds := by
  by_cases hlt : g.queueCtr < numQueues
  · have hrest : KeepsStopping Globals.acceptedIds (do
        getDevice v
        createQp v ⟨g.queueCtr, hlt⟩
        test (!v.fails .queryDevice) .queryDevice
        test (!v.fails .accept) .accept
        modify fun s => s.log (.accept id param)
        return (0 : ℤ) : Exec κ ℤ) :=
      .bind getDevice_acceptedIds fun _ => .bind (createQp_acceptedIds _) fun _ =>
        .bind (test_keeps _ _) fun _ => .bind (test_keeps _ _) fun _ => .modify_pure _ _
    by_cases hinit : (g.queues ⟨g.queueCtr, hlt⟩).state = .init
    · refine hrest (g.assigned id ⟨g.queueCtr, hlt⟩) a g' ?_
      simpa only [onConnectRequest, bind_apply, get_apply, set_apply, hlt, dite_true, hinit, test,
        decide_true, if_true, pure_apply, modify_apply, Globals.assigned, Globals.setQueue] using h
    · have herr : onConnectRequest v id param g =
          .error (.die .stateInit) { g with queueCtr := g.queueCtr + 1 } := by
        simp [onConnectRequest, hlt, hinit, test]
      cases herr.symm.trans h
      rfl
  · cases (onConnectRequest_beyond hlt).symm.trans h
    rfl

theorem onEvent_accepting (v : Verbs) (e : CmEvent κ) (g : Globals κ) :
    Accepting e g (finalState (onEvent v e g)) := by
  cases e with
  | connectRequest id param =>
    show Accepting _ g (finalState (onConnectRequest v id param g))
    cases hrun : onConnectRequest v id param g with
    | error a g' => exact .same (onConnectRequest_stopped hrun)
    | ok ret g' =>
      obtain ⟨-, q, hq, -, rfl⟩ := onConnectRequest_ok hrun
      refine .one rfl ?_ (hq ▸ q.isLt) rfl
      show (g.accepted v id param q).acceptedIds = g.acceptedIds ++ [id]
      have hregistered : (g.registered v).acceptedIds = g.acceptedIds := by
        rw [acceptedIds_append registered_calls]
        split <;> exact List.append_nil _
      rw [← hregistered]
      have hcalls : (g.accepted v id param q).calls =
          (g.registered v).calls ++ [.createQp id, .accept id param] := rfl
      exact acceptedIds_append hcalls
  | established id =>
    simp only [onEvent, bind_apply, get_apply]
    cases hctx : g.context id with
    | none => exact .same rfl
    | some q =>
      simp only [deref, pure_apply]
      cases hrun : onConnection v q g with
      | error a g' =>
        cases onConnection_error hrun
        exact .same rfl
      | ok ret g' =>
        obtain ⟨-, -, sent, hzero, hpos, rfl⟩ := onConnection_ok hrun
        have hsent : sent.filterMap Call.accepted? = [] := by
          by_cases hq : q.val = 0
          · obtain ⟨c, r, -, -, rfl⟩ := hzero hq
            rfl
          · rw [hpos hq]
            rfl
        refine .same ?_
        rw [finalState_ok, acceptedIds_append rfl, hsent, List.append_nil]
  | disconnected id =>
    simp only [onEvent, bind_apply, get_apply]
    cases hctx : g.context id with
    | none => exact .same rfl
    | some q =>
      simp only [deref, pure_apply]
      cases hrun : onDisconnect q g with
      | error a g' =>
        cases onDisconnect_error hrun
        exact .same rfl
      | ok ret g' =>
        obtain ⟨-, ⟨-, rfl⟩ | ⟨c, -, -, rfl⟩⟩ := onDisconnect_ok hrun
        · exact .same rfl
        · refine .same ?_
          rw [finalState_ok, acceptedIds_append (List.append_assoc _ _ _)]
          exact List.append_nil _
  | other id => exact .same rfl

theorem turn_accepting (p : Process κ) (v : Verbs) (e : CmEvent κ) :
    Accepting e p.globals (p.turn v (some e)).globals :=
  turn_of_onEvent (.same rfl) (onEvent_accepting v e _) fun _ h => h.exit

theorem turn_none_accepting (p : Process κ) (v : Verbs) (e : CmEvent κ) :
    Accepting e p.globals (p.turn v none).globals := by
  obtain ⟨phase, g⟩ := p
  cases phase with
  | serving => exact (Accepting.same rfl).exit
  | connecting | exited | died => exact .same rfl

end Multiswap.Server
