import Mathlib.Data.List.Induction
import Multiswap.Lib.Machine
import Multiswap.Server.Handlers

/-!
# The table of queues

`queue_ctr` numbers the connect requests and is never lowered, so every request
gets an entry that no connection has had, until the table ends; nothing checks
that it has not ended.
-/

namespace Multiswap.Server

open Machine (after Always Each)
open StateError

variable {κ : Type} {v : Verbs} {g g' : Globals κ}

/-- One input of `main`: what the libraries answer, and the event unless
`rdma_get_cm_event` failed. -/
abbrev Input (κ : Type) := Verbs × Option (CmEvent κ)

/-- What the assignment of entries depends on. -/
def Globals.table (g : Globals κ) :
    ℕ × (κ → Option (Fin numQueues)) × (Fin numQueues → Option κ × QueueState) :=
  (g.queueCtr, g.context, fun q => ((g.queues q).cmId, (g.queues q).state))

/-- The assigned entries are those below the counter, each to one connection, and
the others were never used. -/
structure TableInv (g : Globals κ) : Prop where
  held : ∀ id q, g.context id = some q → q.val < g.queueCtr
  apart : ∀ id id' q, g.context id = some q → g.context id' = some q → id = id'
  unused : ∀ q : Fin numQueues, g.queueCtr ≤ q.val →
    (g.queues q).cmId = none ∧ (g.queues q).state = .init

theorem tableInv_initial : TableInv (Globals.initial κ) where
  held _ _ h := by cases h
  apart _ _ _ h := by cases h
  unused _ _ := ⟨rfl, rfl⟩

theorem TableInv.congr (h : TableInv g) (ht : g'.table = g.table) : TableInv g' := by
  simp only [Globals.table, Prod.mk.injEq] at ht
  obtain ⟨hctr, hctx, hqueues⟩ := ht
  constructor
  · rw [hctx, hctr]
    exact h.held
  · rw [hctx]
    exact h.apart
  · intro q hq
    have hentry := congrFun hqueues q
    simp only [Prod.mk.injEq] at hentry
    rw [hentry.1, hentry.2]
    exact h.unused q (hctr ▸ hq)

/-! ## What the handlers leave alone -/

theorem test_keeps {δ : Type} {f : Globals κ → δ} (ok : Bool) (t : Test) : Keeps f (test ok t) :=
  .ite (.pure _) (.throw _)

theorem getDevice_keeps : Keeps Globals.table (getDevice v : Exec κ Unit) := by
  refine .bind .get fun s => .ite ?_ (.pure _)
  refine .bind (test_keeps _ _) fun _ => .bind (test_keeps _ _) fun _ => .bind (test_keeps _ _) fun _ =>
    .bind (test_keeps _ _) fun _ => .bind (test_keeps _ _) fun _ => ?_
  exact .modify fun _ => rfl

theorem destroyDevice_keeps : Keeps Globals.table (destroyDevice : Exec κ Unit) := by
  intro g
  simp only [destroyDevice, bind_apply, get_apply]
  cases g.device <;> rfl

theorem createQp_keeps (q : Fin numQueues) : Keeps Globals.table (createQp v q : Exec κ Unit) := by
  intro g
  simp only [createQp, bind_apply, get_apply]
  cases hid : (g.queues q).cmId with
  | none => rfl
  | some id =>
    cases hfail : v.fails .createQp with
    | true => rfl
    | false =>
      simp only [deref, pure_apply, test, Bool.not_false, if_true, modify_apply, finalState_ok,
        Globals.table, Globals.setQueue_queueCtr, Globals.log_queueCtr, Globals.setQueue_context,
        Globals.log_context, Globals.setQueue_queues, Globals.log_queues, Prod.mk.injEq, true_and]
      funext k
      by_cases hk : k = q
      · subst hk
        simp [hid]
      · simp [hk]

/-- `on_connection` stops before it changes anything. -/
theorem onConnection_error {q : Fin numQueues} {a : Abort} (h : onConnection v q g = .error a g') :
    g' = g := by
  simp only [onConnection, bind_apply, get_apply, test] at h
  by_cases hinit : (g.queues q).state = .init
  · by_cases hq : q.val = 0
    · cases hdev : g.device with
      | none =>
        simp [hinit, hq, hdev, deref] at h
        exact h.2.symm
      | some r =>
        cases hqp : (g.queues q).qp with
        | none =>
          simp [hinit, hq, hdev, hqp, deref] at h
          exact h.2.symm
        | some id =>
          cases hfail : v.fails .postSend <;> simp [hinit, hq, hdev, hqp, hfail, deref] at h
          exact h.2.symm
    · simp [hinit, hq] at h
  · simp [hinit] at h
    exact h.2.symm

theorem onDisconnect_error {q : Fin numQueues} {a : Abort} (h : onDisconnect q g = .error a g') :
    g' = g := by
  simp only [onDisconnect, bind_apply, get_apply] at h
  by_cases hst : (g.queues q).state = .connected
  · cases hid : (g.queues q).cmId with
    | none =>
      simp [hst, hid, deref] at h
      exact h.2.symm
    | some id => simp [hst, hid, deref] at h
  · simp [hst] at h

theorem TableInv.setState (h : TableInv g) {q : Fin numQueues} (hq : q.val < g.queueCtr)
    (st : QueueState) (calls : List (Call κ)) :
    TableInv { g.setQueue q { g.queues q with state := st } with calls := calls } where
  held := h.held
  apart := h.apart
  unused k hk := by
    have hk' : g.queueCtr ≤ k.val := hk
    have hne : k ≠ q := by
      rintro rfl
      omega
    simpa [hne] using h.unused k hk'

/-- `destroy_device` does not touch the table. -/
theorem exit_table (g : Globals κ) : (Process.exit g).globals.table = g.table := by
  have hkeeps := destroyDevice_keeps g
  rw [Process.exit]
  cases hd : destroyDevice g with
  | ok u g' =>
    rw [hd] at hkeeps
    exact hkeeps
  | error a g' =>
    rw [hd] at hkeeps
    exact hkeeps

variable [DecidableEq κ]

/-- The memory once a connect request has got entry `q`. -/
def Globals.assigned (g : Globals κ) (id : κ) (q : Fin numQueues) : Globals κ :=
  { g.setQueue q { g.queues q with cmId := some id } with
    queueCtr := g.queueCtr + 1
    context := Function.update g.context id (some q) }

theorem onConnectRequest_beyond {id : κ} {param : ConnParam} (h : ¬ g.queueCtr < numQueues) :
    onConnectRequest v id param g =
      .error (.queues g.queueCtr) { g with queueCtr := g.queueCtr + 1 } := by
  simp [onConnectRequest, h]

/-- A request gets the entry that the counter names, also if its handler stops later. -/
theorem onConnectRequest_table (id : κ) (param : ConnParam) {q : Fin numQueues}
    (hq : q.val = g.queueCtr) (hinit : (g.queues q).state = .init) :
    (finalState (onConnectRequest v id param g)).table = (g.assigned id q).table := by
  have hlt : g.queueCtr < numQueues := hq ▸ q.isLt
  have heq : (⟨g.queueCtr, hlt⟩ : Fin numQueues) = q := Fin.ext hq.symm
  have hrest : Keeps Globals.table (do
      getDevice v
      createQp v q
      test (!v.fails .queryDevice) .queryDevice
      test (!v.fails .accept) .accept
      modify fun s => s.log (.accept id param)
      return (0 : ℤ) : Exec κ ℤ) :=
    .bind getDevice_keeps fun _ => .bind (createQp_keeps q) fun _ => .bind (test_keeps _ _) fun _ =>
      .bind (test_keeps _ _) fun _ => .bind (.modify fun _ => rfl) fun _ => .pure _
  have hrun := hrest (g.assigned id q)
  simp only [onConnectRequest, bind_apply, get_apply, set_apply, hlt, dite_true, heq, hinit, test,
    decide_true, if_true, pure_apply, modify_apply, Globals.assigned, Globals.setQueue] at hrun ⊢
  exact hrun

theorem TableInv.request (h : TableInv g) {id : κ} {q : Fin numQueues} (hq : q.val = g.queueCtr) :
    TableInv (g.assigned id q) where
  held c k hc := by
    show k.val < g.queueCtr + 1
    by_cases hid : c = id
    · subst hid
      have hk : q = k := by simpa [Globals.assigned] using hc
      omega
    · have hold : g.context c = some k := by simpa [Globals.assigned, hid] using hc
      have := h.held c k hold
      omega
  apart c c' k hc hc' := by
    simp only [Globals.assigned, Function.update_apply] at hc hc'
    have hnew : ∀ d, g.context d = some q → False := fun d hd => by
      have := h.held d q hd
      omega
    split at hc <;> split at hc'
    · next hid hid' => rw [hid, hid']
    · cases hc
      exact (hnew c' hc').elim
    · cases hc'
      exact (hnew c hc).elim
    · exact h.apart c c' k hc hc'
  unused k hk := by
    have hk' : g.queueCtr + 1 ≤ k.val := hk
    have hne : k ≠ q := by
      rintro rfl
      omega
    simpa [Globals.assigned, hne] using h.unused k (by omega)

/-- Every event keeps the invariant, whether its handler returns or stops. -/
theorem TableInv.onEvent (h : TableInv g) (v : Verbs) (e : CmEvent κ) :
    TableInv (finalState (onEvent v e g)) := by
  cases e with
  | connectRequest id param =>
    by_cases hlt : g.queueCtr < numQueues
    · have hinit := (h.unused ⟨g.queueCtr, hlt⟩ (Nat.le_refl _)).2
      exact (h.request (q := ⟨g.queueCtr, hlt⟩) rfl).congr (onConnectRequest_table id param rfl hinit)
    · simp only [Server.onEvent, onConnectRequest_beyond hlt, finalState_error]
      exact ⟨fun c q hc => Nat.lt_succ_of_lt (h.held c q hc), h.apart,
        fun q hq => h.unused q (Nat.le_of_succ_le hq)⟩
  | established id =>
    simp only [Server.onEvent, bind_apply, get_apply]
    cases hctx : g.context id with
    | none => exact h
    | some q =>
      simp only [deref, pure_apply]
      cases hrun : onConnection v q g with
      | ok ret g' =>
        obtain ⟨-, -, sent, -, -, rfl⟩ := onConnection_ok hrun
        exact h.setState (h.held id q hctx) .connected _
      | error a g' =>
        cases onConnection_error hrun
        exact h
  | disconnected id =>
    simp only [Server.onEvent, bind_apply, get_apply]
    cases hctx : g.context id with
    | none => exact h
    | some q =>
      simp only [deref, pure_apply]
      cases hrun : onDisconnect q g with
      | ok ret g' =>
        obtain ⟨-, ⟨-, rfl⟩ | ⟨c, -, -, rfl⟩⟩ := onDisconnect_ok hrun
        · exact h
        · exact h.setState (h.held id q hctx) .init _
      | error a g' =>
        cases onDisconnect_error hrun
        exact h
  | other id => exact h

/-! ## Turns of the event loops -/

/-- One turn of `main`. -/
def Process.step (p : Process κ) (x : Input κ) : Process κ := p.turn x.1 x.2

theorem turn_none_table (p : Process κ) (v : Verbs) :
    (p.turn v none).globals.table = p.globals.table := by
  obtain ⟨phase, g⟩ := p
  cases phase with
  | connecting | exited | died => rfl
  | serving => exact exit_table g

/-- A turn leaves the table as the handler of its event does. -/
theorem turn_some_table {p : Process κ} (hp : p.InLoops) (v : Verbs) (e : CmEvent κ) :
    (p.turn v (some e)).globals.table = (finalState (onEvent v e p.globals)).table := by
  obtain ⟨phase, g⟩ := p
  cases hev : onEvent v e g with
  | ok ret g' =>
    cases phase with
    | connecting i =>
      simp only [Process.turn, hev]
      split <;> rfl
    | serving =>
      simp only [Process.turn, hev]
      split
      · exact exit_table g'
      · rfl
    | exited | died => exact absurd hp id
  | error a g' =>
    cases phase with
    | connecting | serving =>
      simp only [Process.turn, hev]
      rfl
    | exited | died => exact absurd hp id

theorem turn_of_not_inLoops {p : Process κ} (hp : ¬ p.InLoops) (v : Verbs)
    (event : Option (CmEvent κ)) : p.turn v event = p := by
  obtain ⟨phase, g⟩ := p
  cases phase with
  | connecting | serving => exact absurd trivial hp
  | exited | died => rfl

theorem TableInv.step {p : Process κ} (h : TableInv p.globals) (x : Input κ) :
    TableInv (p.step x).globals := by
  obtain ⟨v, event⟩ := x
  by_cases hp : p.InLoops
  · cases event with
    | none => exact h.congr (turn_none_table p v)
    | some e => exact (h.onEvent v e).congr (turn_some_table hp v e)
  · rw [Process.step, turn_of_not_inLoops hp]
    exact h

theorem tableInv_after (tr : List (Input κ)) :
    TableInv (after Process.step (.initial κ) tr).globals :=
  Machine.invariant (I := fun p : Process κ => TableInv p.globals) (fun _ x h => h.step x)
    tableInv_initial tr

/-! ## Safe use -/

/-- The request is turned away: no entry is assigned. -/
def Rejected (p p' : Process κ) : Prop := p'.InLoops ∧ p'.globals.table = p.globals.table

/-- The request gets an entry that was in state `INIT` and no connection's. -/
def AssignedFree (p p' : Process κ) (id : κ) : Prop :=
  ∃ q, p'.globals.context id = some q ∧ (p.globals.queues q).state = .init ∧
    (p.globals.queues q).cmId = none ∧ ∀ c, p.globals.context c ≠ some q

/-- A connect request that the process gets in one of its loops is turned away or
gets a free entry. -/
def RequestServed (p : Process κ) (x : Input κ) : Prop :=
  p.InLoops → ∀ id param, x.2 = some (.connectRequest id param) →
    Rejected p (p.step x) ∨ AssignedFree p (p.step x) id

/-- No two connections share an entry. -/
def Apart (p : Process κ) : Prop :=
  ∀ id id' q, p.globals.context id = some q → p.globals.context id' = some q → id = id'

/-- The table is used safely in a run. -/
def TableSafe (tr : List (Input κ)) : Prop :=
  Each Process.step RequestServed (.initial κ) tr ∧ Always Process.step Apart (.initial κ) tr

/-- What a request needs: the counter is within the table. -/
theorem requestServed_iff {p : Process κ} (h : TableInv p.globals) (x : Input κ) :
    RequestServed p x ↔ (p.InLoops → ∀ id param, x.2 = some (.connectRequest id param) →
      p.globals.queueCtr < numQueues) := by
  refine forall_congr' fun hp => forall_congr' fun id => forall_congr' fun param =>
    forall_congr' fun hx => ?_
  obtain ⟨v, event⟩ := x
  dsimp only at hx
  subst hx
  have htable := turn_some_table hp v (.connectRequest id param)
  constructor
  · intro hserved
    by_contra hlt
    have hev : onEvent v (.connectRequest id param) p.globals = _ := onConnectRequest_beyond hlt
    have hstate : (p.step (v, some (.connectRequest id param))).globals.context = p.globals.context := by
      rw [hev] at htable
      exact congrArg (fun t => t.2.1) htable
    have hdied : ¬ (p.step (v, some (.connectRequest id param))).InLoops := by
      intro hin
      obtain ⟨ret, hok⟩ := onEvent_of_inLoops hp hin
      rw [hev] at hok
      cases hok
    rcases hserved with ⟨hin, -⟩ | ⟨q, hq, -, -, hfree⟩
    · exact hdied hin
    · rw [hstate] at hq
      exact hfree id hq
  · intro hlt
    have hunused := h.unused ⟨p.globals.queueCtr, hlt⟩ (Nat.le_refl _)
    have hassigned := onConnectRequest_table (v := v) id param rfl hunused.2
    have hctx : (p.step (v, some (.connectRequest id param))).globals.context =
        Function.update p.globals.context id (some ⟨p.globals.queueCtr, hlt⟩) :=
      congrArg (fun t => t.2.1) (htable.trans hassigned)
    refine .inr ⟨⟨p.globals.queueCtr, hlt⟩, ?_, hunused.2, hunused.1, ?_⟩
    · rw [hctx, Function.update_self]
    · intro c hc
      have := h.held c _ hc
      exact absurd this (Nat.lt_irrefl _)

/-- An input is a connect request. -/
def isRequest (x : Input κ) : Bool :=
  match x.2 with
  | some (.connectRequest _ _) => true
  | _ => false

/-- The number of connect requests among some inputs. -/
def connectRequests (tr : List (Input κ)) : ℕ := tr.countP isRequest

theorem turn_queueCtr {p : Process κ} {x : Input κ} (h : (p.step x).InLoops) :
    (p.step x).globals.queueCtr = p.globals.queueCtr + if isRequest x then 1 else 0 := by
  obtain ⟨v, event⟩ := x
  have hp : p.InLoops := by
    by_contra hp
    rw [Process.step, turn_of_not_inLoops hp] at h
    exact hp h
  cases event with
  | none => exact congrArg Prod.fst (turn_none_table p v)
  | some e =>
    obtain ⟨ret, hok⟩ := onEvent_of_inLoops hp h
    show (p.turn v (some e)).globals.queueCtr = _
    cases e with
    | connectRequest id param =>
      obtain ⟨-, q, -, -, heq⟩ := onConnectRequest_ok hok
      rw [heq]
      rfl
    | established id =>
      simp only [onEvent, bind_eq_ok, get_apply, EStateM.Result.ok.injEq, deref_eq_ok] at hok
      obtain ⟨_, _, ⟨rfl, rfl⟩, q, _, ⟨-, rfl⟩, hok⟩ := hok
      obtain ⟨-, -, sent, -, -, heq⟩ := onConnection_ok hok
      rw [heq]
      rfl
    | disconnected id =>
      simp only [onEvent, bind_eq_ok, get_apply, EStateM.Result.ok.injEq, deref_eq_ok, pure_apply] at hok
      obtain ⟨_, _, ⟨rfl, rfl⟩, q, _, ⟨-, rfl⟩, _, _, hok, -, heq⟩ := hok
      obtain ⟨-, ⟨-, heq'⟩ | ⟨c, -, -, heq'⟩⟩ := onDisconnect_ok hok
      all_goals rw [← heq, heq']; rfl
    | other id =>
      simp only [onEvent, pure_apply, EStateM.Result.ok.injEq] at hok
      rw [← hok.2]
      rfl

/-- While `main` is in its loops the counter is the number of requests so far. -/
theorem queueCtr_eq {tr : List (Input κ)} (h : (after Process.step (.initial κ) tr).InLoops) :
    (after Process.step (.initial κ) tr).globals.queueCtr = connectRequests tr := by
  induction tr using List.reverseRecOn with
  | nil => rfl
  | append_singleton tr x ih =>
    rw [Machine.after_concat] at h ⊢
    have hp : (after Process.step (.initial κ) tr).InLoops := by
      by_contra hp
      rw [Process.step, turn_of_not_inLoops hp] at h
      exact hp h
    rw [turn_queueCtr h, ih hp, connectRequests, connectRequests, List.countP_append,
      List.countP_singleton]

/-- The table is used safely exactly in the runs in which every connect request
that the loops get has fewer than `NUM_QUEUES` before it. -/
theorem table_safe_iff (tr : List (Input κ)) :
    TableSafe tr ↔ ∀ before v id param rest,
      tr = before ++ (v, some (.connectRequest id param)) :: rest →
        (after Process.step (.initial κ) before).InLoops → connectRequests before < numQueues := by
  constructor
  · rintro ⟨heach, -⟩ before v id param rest htr hp
    have hlt := (requestServed_iff (tableInv_after before) _).mp (heach before _ rest htr) hp id param rfl
    rwa [queueCtr_eq hp] at hlt
  · intro h
    constructor
    · intro before x rest htr
      refine (requestServed_iff (tableInv_after before) x).mpr fun hp id param hx => ?_
      obtain ⟨v, event⟩ := x
      dsimp only at hx
      subst hx
      rw [queueCtr_eq hp]
      exact h before v id param rest htr hp
    · intro before rest _
      exact (tableInv_after before).apart

/-- Every library call succeeds. -/
def goodVerbs : Verbs := ⟨fun _ => false, ⟨4096, 1⟩⟩

/-- Connect requests of `n` connections. -/
def requestsOf (n : ℕ) : List (Input ℕ) :=
  (List.range n).map fun i => (goodVerbs, some (.connectRequest i ⟨1, 1, 1, 1⟩))

/-- The nineteenth connect request indexes entry 18 of 18. -/
theorem table_safe_counterexample :
    (after Process.step (.initial ℕ) (requestsOf 19)).phase = .died (.queues 18) ∧
      ¬ ∀ tr : List (Input ℕ), TableSafe tr := by
  have hloops : (after Process.step (.initial ℕ) (requestsOf 18)).InLoops := by decide
  constructor
  · decide
  · intro h
    have hserved := (h (requestsOf 19)).1 (requestsOf 18) _ [] rfl
    have hlt := (requestServed_iff (tableInv_after (requestsOf 18)) _).mp hserved hloops 18 ⟨1, 1, 1, 1⟩ rfl
    rw [queueCtr_eq hloops] at hlt
    revert hlt
    decide

end Multiswap.Server
