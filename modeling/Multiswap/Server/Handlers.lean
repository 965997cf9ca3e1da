import Multiswap.Server.Defs

/-!
# What the handlers of the server do

One lemma for each handler of `rmserver.c`: what is known of the memory of the
process after a call that returned. Then the same for a turn of an event loop.
-/

namespace Multiswap.Server

open StateError

variable {κ : Type} {v : Verbs} {g g' : Globals κ}

theorem test_eq_ok {ok : Bool} {t : Test} {u : Unit} :
    test ok t g = .ok u g' ↔ ok = true ∧ g = g' := by
  cases ok <;> simp [test]

theorem deref_eq_ok {β : Type} {p : Option β} {b : β} :
    deref p g = .ok b g' ↔ p = some b ∧ g = g' := by
  cases p <;> simp [deref]

/-- A change of `q->state` keeps the connection of every entry. -/
@[simp] theorem setState_cmId (q k : Fin numQueues) (st : QueueState) :
    ((g.setQueue q { g.queues q with state := st }).queues k).cmId = (g.queues k).cmId := by
  by_cases h : k = q
  · subst h; simp
  · simp [h]

@[simp] theorem setState_qp (q k : Fin numQueues) (st : QueueState) :
    ((g.setQueue q { g.queues q with state := st }).queues k).qp = (g.queues k).qp := by
  by_cases h : k = q
  · subst h; simp
  · simp [h]

/-- The memory after a `get_device` that returned. -/
def Globals.registered (g : Globals κ) (v : Verbs) : Globals κ :=
  if g.device = none then { g.log (.regMr v.region) with device := some v.region } else g

@[simp] theorem registered_queues : (g.registered v).queues = g.queues := by
  cases h : g.device <;> simp [Globals.registered, h]

@[simp] theorem registered_queueCtr : (g.registered v).queueCtr = g.queueCtr := by
  cases h : g.device <;> simp [Globals.registered, h]

@[simp] theorem registered_context : (g.registered v).context = g.context := by
  cases h : g.device <;> simp [Globals.registered, h]

@[simp] theorem registered_device :
    (g.registered v).device = some (g.device.getD v.region) := by
  cases h : g.device <;> simp [Globals.registered, h]

@[simp] theorem registered_calls :
    (g.registered v).calls = g.calls ++ if g.device = none then [.regMr v.region] else [] := by
  cases h : g.device <;> simp [Globals.registered, h]

theorem getDevice_ok {u : Unit} (h : getDevice v g = .ok u g') : g' = g.registered v := by
  unfold getDevice at h
  simp only [bind_eq_ok, get_apply, EStateM.Result.ok.injEq] at h
  obtain ⟨_, _, ⟨rfl, rfl⟩, h⟩ := h
  unfold Globals.registered
  split at h
  · next hdev =>
    rw [if_pos hdev]
    simp only [bind_eq_ok, test_eq_ok] at h
    obtain ⟨_, _, ⟨-, rfl⟩, _, _, ⟨-, rfl⟩, _, _, ⟨-, rfl⟩, _, _, ⟨-, rfl⟩, _, _, ⟨-, rfl⟩, h⟩ := h
    simpa using h.symm
  · next hdev =>
    rw [if_neg hdev]
    simpa using h.symm

theorem createQp_ok {q : Fin numQueues} {u : Unit} (h : createQp v q g = .ok u g') :
    ∃ id, (g.queues q).cmId = some id ∧
      g' = (g.log (.createQp id)).setQueue q { g.queues q with qp := some id } := by
  simp only [createQp, bind_eq_ok, get_apply, EStateM.Result.ok.injEq, deref_eq_ok, test_eq_ok] at h
  obtain ⟨_, _, ⟨rfl, rfl⟩, id, _, ⟨hid, rfl⟩, _, _, ⟨-, rfl⟩, h⟩ := h
  exact ⟨id, hid, by simpa using h.symm⟩

theorem onConnection_ok {q : Fin numQueues} {ret : ℤ} (h : onConnection v q g = .ok ret g') :
    ret = 0 ∧ (g.queues q).state = .init ∧
      ∃ sent, (q.val = 0 → ∃ id r, (g.queues q).qp = some id ∧ g.device = some r ∧
          sent = [.postSend id r]) ∧ (q.val ≠ 0 → sent = []) ∧
        g' = { g.setQueue q { g.queues q with state := .connected } with calls := g.calls ++ sent } := by
  simp only [onConnection, bind_eq_ok, get_apply, EStateM.Result.ok.injEq, test_eq_ok,
    decide_eq_true_eq] at h
  obtain ⟨_, _, ⟨rfl, rfl⟩, _, _, ⟨hinit, rfl⟩, h⟩ := h
  split at h
  · next hq =>
    simp only [bind_eq_ok, deref_eq_ok, test_eq_ok, modify_apply, EStateM.Result.ok.injEq,
      pure_apply] at h
    obtain ⟨r, _, ⟨hdev, rfl⟩, id, _, ⟨hqp, rfl⟩, _, _, ⟨-, rfl⟩, _, _, ⟨-, rfl⟩, _, _, ⟨-, rfl⟩,
      hret, rfl⟩ := h
    exact ⟨hret.symm, hinit, [.postSend id r], fun _ => ⟨id, r, hqp, hdev, rfl⟩,
      fun hne => absurd hq hne, rfl⟩
  · next hq =>
    simp only [bind_eq_ok, modify_apply, EStateM.Result.ok.injEq, pure_apply] at h
    obtain ⟨_, _, ⟨-, rfl⟩, hret, rfl⟩ := h
    exact ⟨hret.symm, hinit, [], fun h0 => absurd h0 hq, fun _ => rfl, by simp [Globals.setQueue]⟩

theorem onDisconnect_ok {q : Fin numQueues} {ret : ℤ} (h : onDisconnect q g = .ok ret g') :
    ret = 0 ∧ (((g.queues q).state = .init ∧ g' = g) ∨
      ∃ id, (g.queues q).state = .connected ∧ (g.queues q).cmId = some id ∧
        g' = ((g.setQueue q { g.queues q with state := .init }).log (.destroyQp id)).log
          (.destroyId id)) := by
  simp only [onDisconnect, bind_eq_ok, get_apply, EStateM.Result.ok.injEq] at h
  obtain ⟨_, _, ⟨rfl, rfl⟩, h⟩ := h
  split at h
  · next hst =>
    simp only [bind_eq_ok, deref_eq_ok, set_apply, EStateM.Result.ok.injEq, pure_apply] at h
    obtain ⟨id, _, ⟨hid, rfl⟩, _, _, ⟨-, rfl⟩, hret, rfl⟩ := h
    exact ⟨hret.symm, .inr ⟨id, hst, hid, rfl⟩⟩
  · next hst =>
    simp only [pure_apply, EStateM.Result.ok.injEq] at h
    have hinit : (g.queues q).state = .init := by
      cases hq : (g.queues q).state with
      | init => rfl
      | connected => exact absurd hq hst
    exact ⟨h.1.symm, .inl ⟨hinit, h.2.symm⟩⟩

/-- `main` has no way back from `destroy_device`. -/
theorem exit_not_inLoops (g : Globals κ) : ¬ (Process.exit g).InLoops := by
  rw [Process.exit]
  cases destroyDevice g <;> exact id

variable [DecidableEq κ]

/-- The memory after an `on_connect_request` that returned. -/
def Globals.accepted (g : Globals κ) (v : Verbs) (id : κ) (param : ConnParam) (q : Fin numQueues) :
    Globals κ where
  queues := Function.update g.queues q ⟨some id, some id, (g.queues q).state⟩
  device := some (g.device.getD v.region)
  queueCtr := g.queueCtr + 1
  context := Function.update g.context id (some q)
  calls := (g.registered v).calls ++ [.createQp id, .accept id param]

theorem onConnectRequest_ok {id : κ} {param : ConnParam} {ret : ℤ}
    (h : onConnectRequest v id param g = .ok ret g') :
    ret = 0 ∧ ∃ q : Fin numQueues, q.val = g.queueCtr ∧ (g.queues q).state = .init ∧
      g' = g.accepted v id param q := by
  simp only [onConnectRequest, bind_eq_ok, get_apply, set_apply, EStateM.Result.ok.injEq] at h
  obtain ⟨_, _, ⟨rfl, rfl⟩, _, _, ⟨-, rfl⟩, h⟩ := h
  split at h
  · next hlt =>
    simp only [bind_eq_ok, test_eq_ok, decide_eq_true_eq, modify_apply, EStateM.Result.ok.injEq,
      pure_apply] at h
    obtain ⟨_, _, ⟨hinit, rfl⟩, _, _, ⟨-, rfl⟩, _, _, hdev, _, _, hqp, _, _, ⟨-, rfl⟩, _, _,
      ⟨-, rfl⟩, _, _, ⟨-, rfl⟩, hret, rfl⟩ := h
    refine ⟨hret.symm, ⟨g.queueCtr, hlt⟩, rfl, hinit, ?_⟩
    cases getDevice_ok hdev
    obtain ⟨id', hid, rfl⟩ := createQp_ok hqp
    have hid' : id = id' := by simpa using hid
    subst hid'
    ext <;> simp [Globals.accepted]
  · cases h

/-- A process that is still in its loops after an event has handled it to the end. -/
theorem onEvent_of_inLoops {p : Process κ} {e : CmEvent κ} (hp : p.InLoops)
    (h : (p.turn v (some e)).InLoops) :
    ∃ ret, onEvent v e p.globals = .ok ret (p.turn v (some e)).globals := by
  obtain ⟨phase, g⟩ := p
  cases hev : onEvent v e g with
  | ok ret g' =>
    refine ⟨ret, ?_⟩
    cases phase with
    | connecting i =>
      simp only [Process.turn, hev]
      split <;> rfl
    | serving =>
      simp only [Process.turn, hev] at h ⊢
      split at h
      · exact absurd h (exit_not_inLoops g')
      · next hret => rw [if_neg hret]
    | exited | died => exact absurd hp id
  | error a g' =>
    cases phase with
    | connecting | serving =>
      simp only [Process.turn, hev] at h
      exact absurd h id
    | exited | died => exact absurd hp id

/-- A failed `rdma_get_cm_event` changes no memory, unless `main` leaves its loops. -/
theorem turn_none_globals {p : Process κ} (h : (p.turn v none).InLoops) :
    (p.turn v none).globals = p.globals := by
  obtain ⟨phase, g⟩ := p
  cases phase with
  | connecting | exited | died => rfl
  | serving => exact absurd h (exit_not_inLoops g)

end Multiswap.Server
