import Multiswap.Server.Table

/-!
# The lifetime of the far memory

`on_event` returns 1 for a disconnect and for an unknown event. The loop that
waits for queue `i` takes this as the end of the wait, and the loop after it as the
end of the server, whatever other queues are connected.
-/

namespace Multiswap.Server

open Machine (after Always Each)
open StateError

variable {κ : Type} {v : Verbs} {g g' : Globals κ}

/-- Some queue is connected. -/
def AnyConnected (g : Globals κ) : Prop := ∃ q, (g.queues q).state = .connected

/-- Where a queue is connected, the server is in its loops and the buffer registered. -/
def Outlives (p : Process κ) : Prop :=
  ∀ q, (p.globals.queues q).state = .connected → p.InLoops ∧ p.globals.device ≠ none

/-- The assigned entries are set up, and the first assignment has registered the buffer. -/
structure SetUp (g : Globals κ) : Prop where
  cmId : ∀ q : Fin numQueues, q.val < g.queueCtr → (g.queues q).cmId ≠ none
  qp : ∀ q : Fin numQueues, q.val < g.queueCtr → (g.queues q).qp ≠ none
  device : 0 < g.queueCtr → g.device ≠ none

/-- What holds of the process at all times: entries are assigned one after the other,
and in the loops they are set up. -/
structure LoopInv (p : Process κ) : Prop where
  table : TableInv p.globals
  setUp : p.InLoops → SetUp p.globals

theorem loopInv_initial : LoopInv (Process.initial κ) where
  table := tableInv_initial
  setUp _ := ⟨fun _ h => absurd h (Nat.not_lt_zero _), fun _ h => absurd h (Nat.not_lt_zero _),
    fun h => absurd h (Nat.not_lt_zero _)⟩

theorem AnyConnected.congr (ht : g'.table = g.table) : AnyConnected g' ↔ AnyConnected g := by
  have hstate : ∀ q, (g'.queues q).state = (g.queues q).state := fun q =>
    congrArg (fun t => (t.2.2 q).2) ht
  simp only [AnyConnected, hstate]

/-- A connected entry is an assigned one. -/
theorem TableInv.connected_lt (h : TableInv g) {q : Fin numQueues}
    (hq : (g.queues q).state = .connected) : q.val < g.queueCtr := by
  by_contra hlt
  rw [(h.unused q (Nat.not_lt.mp hlt)).2] at hq
  cases hq

theorem LoopInv.outlives_iff {p : Process κ} (h : LoopInv p) :
    Outlives p ↔ (AnyConnected p.globals → p.InLoops) := by
  constructor
  · rintro hout ⟨q, hq⟩
    exact (hout q hq).1
  · intro hin q hq
    have hp := hin ⟨q, hq⟩
    exact ⟨hp, (h.setUp hp).device (Nat.zero_lt_of_lt (h.table.connected_lt hq))⟩

theorem afterQueue_inLoops (i : Fin numQueues) (g : Globals κ) :
    (Process.mk (.afterQueue i) g).InLoops := by
  unfold Phase.afterQueue
  split <;> trivial

theorem SetUp.setState (h : SetUp g) (q : Fin numQueues) (st : QueueState) (calls : List (Call κ)) :
    SetUp { g.setQueue q { g.queues q with state := st } with calls := calls } where
  cmId k hk := by
    show ((g.setQueue q { g.queues q with state := st }).queues k).cmId ≠ none
    rw [setState_cmId]
    exact h.cmId k hk
  qp k hk := by
    show ((g.setQueue q { g.queues q with state := st }).queues k).qp ≠ none
    rw [setState_qp]
    exact h.qp k hk
  device := h.device

variable [DecidableEq κ]

/-! ## One event -/

theorem SetUp.onEvent (h : SetUp g) (v : Verbs) (e : CmEvent κ) {ret : ℤ}
    (hok : onEvent v e g = .ok ret g') : SetUp g' := by
  cases e with
  | connectRequest id param =>
    obtain ⟨-, q, hq, -, rfl⟩ := onConnectRequest_ok hok
    have hlt : ∀ k : Fin numQueues, k ≠ q → k.val < g.queueCtr + 1 → k.val < g.queueCtr := by
      intro k hk hlt
      have hne : k.val ≠ q.val := fun heq => hk (Fin.ext heq)
      omega
    refine ⟨fun k hk => ?_, fun k hk => ?_, fun _ => by simp [Globals.accepted]⟩
    · by_cases hkq : k = q
      · subst hkq
        simp [Globals.accepted]
      · simpa [Globals.accepted, hkq] using h.cmId k (hlt k hkq hk)
    · by_cases hkq : k = q
      · subst hkq
        simp [Globals.accepted]
      · simpa [Globals.accepted, hkq] using h.qp k (hlt k hkq hk)
  | established id =>
    simp only [Server.onEvent, bind_eq_ok, get_apply, EStateM.Result.ok.injEq, deref_eq_ok] at hok
    obtain ⟨_, _, ⟨rfl, rfl⟩, q, _, ⟨-, rfl⟩, hok⟩ := hok
    obtain ⟨-, -, sent, -, -, rfl⟩ := onConnection_ok hok
    exact h.setState q .connected _
  | disconnected id =>
    simp only [Server.onEvent, bind_eq_ok, get_apply, EStateM.Result.ok.injEq, deref_eq_ok,
      pure_apply] at hok
    obtain ⟨_, _, ⟨rfl, rfl⟩, q, _, ⟨-, rfl⟩, _, _, hok, -, rfl⟩ := hok
    obtain ⟨-, ⟨-, rfl⟩ | ⟨c, -, -, rfl⟩⟩ := onDisconnect_ok hok
    · exact h
    · exact h.setState q .init _
  | other id =>
    simp only [Server.onEvent, pure_apply, EStateM.Result.ok.injEq] at hok
    exact hok.2 ▸ h

theorem LoopInv.step {p : Process κ} (h : LoopInv p) (x : Input κ) : LoopInv (p.step x) where
  table := h.table.step x
  setUp hin := by
    obtain ⟨v, event⟩ := x
    have hp : p.InLoops := by
      by_contra hp
      rw [Process.step, turn_of_not_inLoops hp] at hin
      exact hp hin
    cases event with
    | none =>
      have hg : (p.step (v, none)).globals = p.globals := turn_none_globals hin
      rw [hg]
      exact h.setUp hp
    | some e =>
      obtain ⟨ret, hok⟩ := onEvent_of_inLoops hp hin
      exact (h.setUp hp).onEvent v e hok

/-- The loop goes on after an event whose handler returns, unless it is the last
loop and the handler returns 1. -/
theorem turn_inLoops_iff {p : Process κ} (hp : p.InLoops) (v : Verbs) (e : CmEvent κ) :
    (p.turn v (some e)).InLoops ↔
      ∃ ret g', onEvent v e p.globals = .ok ret g' ∧ (p.phase = .serving → ret = 0) := by
  constructor
  · intro hin
    obtain ⟨ret, g', hok⟩ : ∃ ret g', onEvent v e p.globals = .ok ret g' :=
      (onEvent_of_inLoops hp hin).imp fun ret hok => ⟨_, hok⟩
    refine ⟨ret, g', hok, fun hphase => ?_⟩
    by_contra hret
    simp only [Process.turn, hphase, hok, ne_eq, hret, not_false_eq_true, if_true] at hin
    exact exit_not_inLoops _ hin
  · rintro ⟨ret, g', hok, hret⟩
    obtain ⟨phase, g⟩ := p
    cases phase with
    | connecting i =>
      simp only [Process.turn, hok]
      split
      · exact afterQueue_inLoops i g'
      · trivial
    | serving =>
      simp only [Process.turn, hok, hret rfl, ne_eq, not_true_eq_false, if_false]
      trivial
    | exited | died => exact absurd hp id

/-! ## What a step must not do -/

/-- With a queue connected, the server must be able to serve a request and to
connect its queue, a disconnect must be of the only connected queue once all are
connected, and then there must be no other event and no failure to get one. -/
def Spares (p : Process κ) (x : Input κ) : Prop :=
  p.InLoops → AnyConnected p.globals →
    match x.2 with
    | none => p.phase ≠ .serving
    | some (.connectRequest _ _) =>
      p.globals.queueCtr < numQueues ∧
        ∀ t ∈ [Test.createQp, .queryDevice, .accept], x.1.fails t = false
    | some (.established id) =>
      ∃ q, p.globals.context id = some q ∧ (p.globals.queues q).state = .init ∧
        (q.val = 0 → x.1.fails .postSend = false)
    | some (.disconnected id) =>
      ∃ q, p.globals.context id = some q ∧
        (p.phase = .serving → ∀ k, (p.globals.queues k).state = .connected → k = q)
    | some (.other _) => p.phase ≠ .serving

section Outcomes

variable {id : κ} {param : ConnParam}

theorem onConnectRequest_returns (htable : TableInv g) (hdev : g.device ≠ none) :
    (∃ ret g', onConnectRequest v id param g = .ok ret g') ↔
      g.queueCtr < numQueues ∧ ∀ t ∈ [Test.createQp, .queryDevice, .accept], v.fails t = false := by
  obtain ⟨r, hdev⟩ := Option.ne_none_iff_exists'.mp hdev
  by_cases hlt : g.queueCtr < numQueues
  · have hinit := (htable.unused ⟨g.queueCtr, hlt⟩ (Nat.le_refl _)).2
    cases hqp : v.fails .createQp <;> cases hquery : v.fails .queryDevice <;>
      cases hacc : v.fails .accept <;>
      simp [onConnectRequest, getDevice, createQp, test, deref, hlt, hinit, hdev, hqp, hquery, hacc]
  · simp [onConnectRequest_beyond hlt, hlt]

theorem established_ret {ret : ℤ} (hok : onEvent v (.established id) g = .ok ret g') : ret = 0 := by
  simp only [onEvent, bind_eq_ok, get_apply, EStateM.Result.ok.injEq, deref_eq_ok] at hok
  obtain ⟨_, _, ⟨rfl, rfl⟩, q, _, ⟨-, rfl⟩, hok⟩ := hok
  exact (onConnection_ok hok).1

theorem established_returns (htable : TableInv g) (hsetUp : SetUp g) :
    (∃ ret g', onEvent v (.established id) g = .ok ret g') ↔
      ∃ q, g.context id = some q ∧ (g.queues q).state = .init ∧
        (q.val = 0 → v.fails .postSend = false) := by
  simp only [onEvent, bind_apply, get_apply]
  cases hctx : g.context id with
  | none => simp [deref]
  | some q =>
    have hlt := htable.held id q hctx
    obtain ⟨r, hdev⟩ := Option.ne_none_iff_exists'.mp (hsetUp.device (Nat.zero_lt_of_lt hlt))
    obtain ⟨c, hqp⟩ := Option.ne_none_iff_exists'.mp (hsetUp.qp q hlt)
    by_cases hinit : (g.queues q).state = .init <;> by_cases hzero : q.val = 0 <;>
      cases hfail : v.fails .postSend <;>
      simp [onConnection, test, deref, hinit, hzero, hfail, hdev, hqp]

theorem disconnected_returns (htable : TableInv g) (hsetUp : SetUp g) :
    (∃ ret g', onEvent v (.disconnected id) g = .ok ret g') ↔ ∃ q, g.context id = some q := by
  simp only [onEvent, bind_apply, get_apply]
  cases hctx : g.context id with
  | none => simp [deref]
  | some q =>
    obtain ⟨c, hid⟩ := Option.ne_none_iff_exists'.mp (hsetUp.cmId q (htable.held id q hctx))
    by_cases hst : (g.queues q).state = .connected <;> simp [onDisconnect, deref, hst, hid]

end Outcomes

/-- A handler that stops leaves the states of the queues as they were. -/
theorem anyConnected_error (htable : TableInv g) {e : CmEvent κ} {a : Abort}
    (herr : onEvent v e g = .error a g') : AnyConnected g' ↔ AnyConnected g := by
  cases e with
  | connectRequest id param =>
    by_cases hlt : g.queueCtr < numQueues
    · have hinit := (htable.unused ⟨g.queueCtr, hlt⟩ (Nat.le_refl _)).2
      have ht := onConnectRequest_table (v := v) (q := ⟨g.queueCtr, hlt⟩) id param rfl hinit
      have herr' : onConnectRequest v id param g = .error a g' := herr
      rw [herr', finalState_error] at ht
      rw [AnyConnected.congr ht]
      refine exists_congr fun k => ?_
      by_cases hk : k = ⟨g.queueCtr, hlt⟩
      · subst hk
        simp [Globals.assigned]
      · simp [Globals.assigned, hk]
    · rw [show onEvent v (.connectRequest id param) g = _ from onConnectRequest_beyond hlt] at herr
      cases herr
      exact Iff.rfl
  | established id =>
    simp only [onEvent, bind_apply, get_apply] at herr
    cases hctx : g.context id with
    | none =>
      simp only [hctx, deref, throw_apply, EStateM.Result.error.injEq] at herr
      rw [herr.2]
    | some q =>
      simp only [hctx, deref, pure_apply] at herr
      rw [onConnection_error herr]
  | disconnected id =>
    simp only [onEvent, bind_apply, get_apply] at herr
    cases hctx : g.context id with
    | none =>
      simp only [hctx, deref, throw_apply, EStateM.Result.error.injEq] at herr
      rw [herr.2]
    | some q =>
      simp only [hctx, deref, pure_apply] at herr
      cases hrun : onDisconnect q g with
      | ok ret g₁ => simp [hrun] at herr
      | error a g₁ =>
        simp only [hrun, EStateM.Result.error.injEq] at herr
        rw [← herr.2, onDisconnect_error hrun]
  | other id => cases herr

/-- A connected queue that a disconnect leaves connected is not the one it is about. -/
theorem anyConnected_disconnected {id : κ} {q : Fin numQueues} (hctx : g.context id = some q)
    {ret : ℤ} (hok : onEvent v (.disconnected id) g = .ok ret g') :
    ret = 1 ∧ (AnyConnected g' ↔ ∃ k, (g.queues k).state = .connected ∧ k ≠ q) := by
  simp only [onEvent, bind_eq_ok, get_apply, EStateM.Result.ok.injEq, deref_eq_ok, pure_apply] at hok
  obtain ⟨_, _, ⟨rfl, rfl⟩, k, _, ⟨hk, rfl⟩, _, _, hok, rfl, rfl⟩ := hok
  rw [hctx] at hk
  cases hk
  refine ⟨rfl, ?_⟩
  obtain ⟨-, ⟨hinit, rfl⟩ | ⟨c, -, -, rfl⟩⟩ := onDisconnect_ok hok
  · refine exists_congr fun k => ?_
    constructor
    · intro hk
      refine ⟨hk, ?_⟩
      rintro rfl
      rw [hinit] at hk
      cases hk
    · exact And.left
  · refine exists_congr fun k => ?_
    by_cases hk : k = q
    · subst hk
      simp
    · simp [hk]

/-! ## One turn -/

theorem turn_anyConnected {p : Process κ} (hp : p.InLoops) (v : Verbs) (e : CmEvent κ) :
    AnyConnected (p.turn v (some e)).globals ↔
      AnyConnected (finalState (onEvent v e p.globals)) :=
  AnyConnected.congr (turn_some_table hp v e)

/-- An event whose handler returns 0 or stops is safe if and only if the handler returns. -/
theorem turn_safe_iff_returns {p : Process κ} (htable : TableInv p.globals) (hp : p.InLoops)
    (hconn : AnyConnected p.globals) {e : CmEvent κ}
    (hzero : ∀ ret g', onEvent v e p.globals = .ok ret g' → ret = 0) :
    (AnyConnected (p.turn v (some e)).globals → (p.turn v (some e)).InLoops) ↔
      ∃ ret g', onEvent v e p.globals = .ok ret g' := by
  rw [turn_anyConnected hp, turn_inLoops_iff hp]
  cases hev : onEvent v e p.globals with
  | ok ret g' =>
    refine iff_of_true ?_ ⟨ret, g', rfl⟩
    intro _
    exact ⟨ret, g', rfl, fun _ => hzero ret g' hev⟩
  | error a g' =>
    have hstill : AnyConnected g' := (anyConnected_error htable hev).mpr hconn
    simp [hstill]

/-- With no queue connected, no event can lose a connected queue. -/
theorem turn_safe_of_none {p : Process κ} (htable : TableInv p.globals) (hp : p.InLoops)
    (hnone : ¬ AnyConnected p.globals) (v : Verbs) (e : CmEvent κ) :
    AnyConnected (p.turn v (some e)).globals → (p.turn v (some e)).InLoops := by
  rw [turn_anyConnected hp, turn_inLoops_iff hp]
  cases hev : onEvent v e p.globals with
  | error a g' =>
    intro hconn
    exact absurd ((anyConnected_error htable hev).mp hconn) hnone
  | ok ret g' =>
    intro hconn
    refine ⟨ret, g', rfl, fun _ => ?_⟩
    cases e with
    | connectRequest id param => exact (onConnectRequest_ok hev).1
    | established id => exact established_ret hev
    | disconnected id =>
      obtain ⟨q, hctx⟩ : ∃ q, p.globals.context id = some q := by
        simp only [onEvent, bind_eq_ok, get_apply, EStateM.Result.ok.injEq, deref_eq_ok] at hev
        obtain ⟨_, _, ⟨rfl, rfl⟩, q, _, ⟨hctx, -⟩, -⟩ := hev
        exact ⟨q, hctx⟩
      obtain ⟨k, hk, -⟩ := (anyConnected_disconnected hctx hev).2.mp hconn
      exact absurd ⟨k, hk⟩ hnone
    | other id =>
      simp only [onEvent, pure_apply, EStateM.Result.ok.injEq] at hev
      rw [finalState_ok, ← hev.2] at hconn
      exact absurd hconn hnone

/-- A failed `rdma_get_cm_event`. -/
theorem turn_none_safe_iff {p : Process κ} (hp : p.InLoops) (hconn : AnyConnected p.globals)
    (v : Verbs) :
    (AnyConnected (p.turn v none).globals → (p.turn v none).InLoops) ↔ p.phase ≠ .serving := by
  have hstill : AnyConnected (p.turn v none).globals :=
    (AnyConnected.congr (turn_none_table p v)).mpr hconn
  rw [forall_prop_of_true hstill]
  obtain ⟨phase, g⟩ := p
  cases phase with
  | connecting i => exact iff_of_true (afterQueue_inLoops i g) (by simp)
  | serving => exact iff_of_false (exit_not_inLoops g) (by simp)
  | exited | died => exact absurd hp id

theorem turn_disconnected_safe_iff {p : Process κ} (h : LoopInv p) (hp : p.InLoops)
    (hconn : AnyConnected p.globals) (v : Verbs) (id : κ) :
    (AnyConnected (p.turn v (some (.disconnected id))).globals →
      (p.turn v (some (.disconnected id))).InLoops) ↔
        ∃ q, p.globals.context id = some q ∧
          (p.phase = .serving → ∀ k, (p.globals.queues k).state = .connected → k = q) := by
  have hreturns : (∃ ret g', onEvent v (.disconnected id) p.globals = .ok ret g') ↔ _ :=
    disconnected_returns h.table (h.setUp hp)
  rw [turn_anyConnected hp, turn_inLoops_iff hp]
  cases hev : onEvent v (.disconnected id) p.globals with
  | error a g' =>
    have hstill : AnyConnected g' := (anyConnected_error h.table hev).mpr hconn
    refine iff_of_false (by simp [hstill]) ?_
    rintro ⟨q, hctx, -⟩
    obtain ⟨ret, g₁, hok⟩ := hreturns.mpr ⟨q, hctx⟩
    rw [hev] at hok
    cases hok
  | ok ret g' =>
    obtain ⟨q, hctx⟩ := hreturns.mp ⟨ret, g', hev⟩
    obtain ⟨rfl, hleft⟩ := anyConnected_disconnected hctx hev
    rw [finalState_ok, hleft]
    constructor
    · intro himp
      refine ⟨q, hctx, fun hphase k hk => ?_⟩
      by_contra hne
      obtain ⟨ret, g₁, heq, hret⟩ := himp ⟨k, hk, hne⟩
      cases heq
      exact absurd (hret hphase) (by decide)
    · rintro ⟨q', hctx', hall⟩ ⟨k, hk, hne⟩
      rw [hctx] at hctx'
      cases hctx'
      exact ⟨1, g', rfl, fun hphase => absurd (hall hphase k hk) hne⟩

theorem turn_other_safe_iff {p : Process κ} (hp : p.InLoops) (hconn : AnyConnected p.globals)
    (v : Verbs) (id : κ) :
    (AnyConnected (p.turn v (some (.other id))).globals → (p.turn v (some (.other id))).InLoops) ↔
      p.phase ≠ .serving := by
  have hok : onEvent v (.other id) p.globals = .ok 1 p.globals := rfl
  rw [turn_anyConnected hp, turn_inLoops_iff hp, hok, finalState_ok, forall_prop_of_true hconn]
  constructor
  · rintro ⟨ret, g₁, heq, hret⟩ hphase
    cases heq
    exact absurd (hret hphase) (by decide)
  · intro hphase
    exact ⟨1, _, rfl, fun hserving => absurd hserving hphase⟩

/-- A step from a state in which the buffer is safe: it stays so exactly if the
step spares the connected queues. -/
theorem outlives_step_iff {p : Process κ} (h : LoopInv p) (x : Input κ) (hout : Outlives p) :
    Outlives (p.step x) ↔ Spares p x := by
  rw [(h.step x).outlives_iff]
  by_cases hp : p.InLoops
  · obtain ⟨v, event⟩ := x
    rw [Spares, forall_prop_of_true hp]
    by_cases hconn : AnyConnected p.globals
    · rw [forall_prop_of_true hconn]
      cases event with
      | none => exact turn_none_safe_iff hp hconn v
      | some e =>
        cases e with
        | connectRequest id param =>
          obtain ⟨q, hq⟩ := hconn
          have hdev := (h.setUp hp).device (Nat.zero_lt_of_lt (h.table.connected_lt hq))
          have hzero : ∀ ret g', onEvent v (.connectRequest id param) p.globals = .ok ret g' →
              ret = 0 := fun _ _ hev => (onConnectRequest_ok hev).1
          exact (turn_safe_iff_returns h.table hp ⟨q, hq⟩ hzero).trans
            (onConnectRequest_returns h.table hdev)
        | established id =>
          exact (turn_safe_iff_returns h.table hp hconn fun _ _ => established_ret).trans
            (established_returns h.table (h.setUp hp))
        | disconnected id => exact turn_disconnected_safe_iff h hp hconn v id
        | other id => exact turn_other_safe_iff hp hconn v id
    · refine iff_of_true ?_ fun hany => absurd hany hconn
      cases event with
      | none =>
        intro hany
        exact absurd ((AnyConnected.congr (turn_none_table p v)).mp hany) hconn
      | some e => exact turn_safe_of_none h.table hp hconn v e
  · rw [Process.step, turn_of_not_inLoops hp]
    refine iff_of_true ?_ fun hin => absurd hin hp
    exact (h.outlives_iff).mp hout

/-- In every run the buffer outlives the connected queues in all states exactly if
every step spares them. -/
theorem far_memory_outlives_iff (tr : List (Input κ)) :
    Always Process.step Outlives (.initial κ) tr ↔ Each Process.step Spares (.initial κ) tr := by
  have hinit : Outlives (Process.initial κ) := fun q hq => by cases hq
  exact Machine.always_iff_each (I := LoopInv) (fun p x h => h.step x)
    (fun p x h hout => outlives_step_iff h x hout) loopInv_initial hinit

/-- Connect requests of `n` connections, each followed by its establishment. -/
def connections (n : ℕ) : List (Input ℕ) :=
  (List.range n).flatMap fun i => [(goodVerbs, some (.connectRequest i ⟨1, 1, 1, 1⟩)),
    (goodVerbs, some (.established i))]

/-- All queues connect, and the connection of queue 0 is lost. -/
def oneLost : List (Input ℕ) := connections 18 ++ [(goodVerbs, some (.disconnected 0))]

/-- The disconnect of one queue frees the buffer while queue 1 is connected. -/
theorem far_memory_outlives_counterexample :
    ((after Process.step (.initial ℕ) oneLost).phase = .exited ∧
      (after Process.step (.initial ℕ) oneLost).globals.device = none ∧
      ((after Process.step (.initial ℕ) oneLost).globals.queues ⟨1, by decide⟩).state = .connected) ∧
    ¬ ∀ tr : List (Input ℕ), Always Process.step Outlives (.initial ℕ) tr := by
  have hend : (after Process.step (.initial ℕ) oneLost).phase = .exited ∧
      (after Process.step (.initial ℕ) oneLost).globals.device = none ∧
      ((after Process.step (.initial ℕ) oneLost).globals.queues ⟨1, by decide⟩).state =
        .connected := by
    decide
  refine ⟨hend, fun h => ?_⟩
  have hout := h oneLost oneLost [] (List.append_nil _).symm
  exact (hout _ hend.2.2).2 hend.2.1

end Multiswap.Server
