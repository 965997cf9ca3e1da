import Mathlib.Order.Fin.Basic
import Multiswap.Server.History
import Multiswap.Server.Lifetime

/-!
# The connection phase

The loop of `main` that waits for queue `i` ends when a handler returns 1 or when
`rdma_get_cm_event` fails, whether queue `i` is connected or not, and `main` does
not look at queue `i` again.
-/

namespace Multiswap.Server

open Machine (after Each)
open StateError

variable {κ : Type} {v : Verbs} {g g' : Globals κ}

/-- `main` has ended the wait for queue `k`. -/
def Phase.Done (k : Fin numQueues) : Phase → Prop
  | .connecting i => k < i
  | .serving => True
  | .exited | .died _ => False

/-- Queue `k` is connected. -/
def Globals.Connected (g : Globals κ) (k : Fin numQueues) : Prop := (g.queues k).state = .connected

instance (g : Globals κ) (k : Fin numQueues) : Decidable (g.Connected k) :=
  inferInstanceAs (Decidable ((g.queues k).state = .connected))

/-- While `main` waits for queues to connect, those it has waited for are connected. -/
def WaitedConnected (p : Process κ) : Prop :=
  ∀ i, p.phase = .connecting i → ∀ k < i, p.globals.Connected k

theorem done_afterQueue {i k : Fin numQueues} : (Phase.afterQueue i).Done k ↔ k ≤ i := by
  unfold Phase.afterQueue
  split
  · show k.val < i.val + 1 ↔ k.val ≤ i.val
    exact Nat.lt_succ_iff
  · next hlast =>
    refine iff_of_true trivial ?_
    show k.val ≤ i.val
    omega

/-- Where the queues before `i` are connected, those up to `i` are if `i` is. -/
theorem forall_le_connected_iff {i : Fin numQueues} (h : ∀ k < i, g.Connected k) :
    (∀ k ≤ i, g.Connected k) ↔ g.Connected i := by
  constructor
  · intro hall
    exact hall i (le_refl i)
  · intro hi k hk
    obtain hlt | rfl := lt_or_eq_of_le hk
    · exact h k hlt
    · exact hi

theorem exit_phase (g : Globals κ) : ∀ i, (Process.exit g).phase ≠ .connecting i := by
  intro i
  rw [Process.exit]
  cases destroyDevice g <;> exact fun h => by cases h

variable [DecidableEq κ]

/-! ## The handlers -/

theorem accepted_connected {id : κ} {param : ConnParam} {q k : Fin numQueues} :
    (g.accepted v id param q).Connected k ↔ g.Connected k := by
  by_cases hk : k = q
  · subst hk
    simp [Globals.Connected, Globals.accepted]
  · simp [Globals.Connected, Globals.accepted, hk]

/-- A connect request takes no connected queue away. -/
theorem connectRequest_keeps {id : κ} {param : ConnParam} {ret : ℤ}
    (hok : onEvent v (.connectRequest id param) g = .ok ret g') :
    ret = 0 ∧ ∀ k, g.Connected k → g'.Connected k := by
  obtain ⟨hret, q, -, -, rfl⟩ := onConnectRequest_ok hok
  exact ⟨hret, fun k hk => accepted_connected.mpr hk⟩

theorem context_of_established {id : κ} {ret : ℤ} (hok : onEvent v (.established id) g = .ok ret g') :
    ∃ q, g.context id = some q := by
  simp only [onEvent, bind_eq_ok, get_apply, EStateM.Result.ok.injEq, deref_eq_ok] at hok
  obtain ⟨_, _, ⟨rfl, rfl⟩, q, _, ⟨hctx, -⟩, -⟩ := hok
  exact ⟨q, hctx⟩

theorem context_of_disconnected {id : κ} {ret : ℤ} (hok : onEvent v (.disconnected id) g = .ok ret g') :
    ∃ q, g.context id = some q := by
  simp only [onEvent, bind_eq_ok, get_apply, EStateM.Result.ok.injEq, deref_eq_ok] at hok
  obtain ⟨_, _, ⟨rfl, rfl⟩, q, _, ⟨hctx, -⟩, -⟩ := hok
  exact ⟨q, hctx⟩

/-- An established connection adds its own queue. -/
theorem established_connected {id : κ} {q : Fin numQueues} (hctx : g.context id = some q) {ret : ℤ}
    (hok : onEvent v (.established id) g = .ok ret g') (k : Fin numQueues) :
    g'.Connected k ↔ k = q ∨ g.Connected k := by
  simp only [onEvent, bind_eq_ok, get_apply, EStateM.Result.ok.injEq, deref_eq_ok] at hok
  obtain ⟨_, _, ⟨rfl, rfl⟩, q', _, ⟨hq', rfl⟩, hok⟩ := hok
  rw [hctx] at hq'
  cases hq'
  obtain ⟨-, -, sent, -, -, rfl⟩ := onConnection_ok hok
  show ((g.setQueue q _).queues k).state = .connected ↔ _
  by_cases hk : k = q
  · subst hk
    simp
  · rw [Globals.setQueue_queues, Function.update_of_ne hk]
    exact (or_iff_right hk).symm

theorem established_keeps {id : κ} {ret : ℤ} (hok : onEvent v (.established id) g = .ok ret g') :
    ret = 0 ∧ ∀ k, g.Connected k → g'.Connected k := by
  refine ⟨established_ret hok, fun k hk => ?_⟩
  obtain ⟨q, hctx⟩ := context_of_established hok
  exact (established_connected hctx hok k).mpr (.inr hk)

/-- After a disconnect the other queues are connected as before, and its own is not. -/
theorem disconnected_connected {id : κ} {q : Fin numQueues} (hctx : g.context id = some q) {ret : ℤ}
    (hok : onEvent v (.disconnected id) g = .ok ret g') (k : Fin numQueues) :
    g'.Connected k ↔ g.Connected k ∧ k ≠ q := by
  simp only [onEvent, bind_eq_ok, get_apply, EStateM.Result.ok.injEq, deref_eq_ok, pure_apply] at hok
  obtain ⟨_, _, ⟨rfl, rfl⟩, q', _, ⟨hq', rfl⟩, _, _, hok, rfl, rfl⟩ := hok
  rw [hctx] at hq'
  cases hq'
  obtain ⟨-, ⟨hinit, rfl⟩ | ⟨c, -, -, rfl⟩⟩ := onDisconnect_ok hok
  · constructor
    · intro hk
      refine ⟨hk, ?_⟩
      rintro rfl
      rw [Globals.Connected, hinit] at hk
      cases hk
    · exact And.left
  · by_cases hk : k = q
    · subst hk
      simp [Globals.Connected]
    · simp [Globals.Connected, hk]

/-! ## One turn -/

/-- A turn that ends the wait for a queue leaves all queues waited for connected. -/
def Finishes (p : Process κ) (x : Input κ) : Prop :=
  ∀ i, p.phase = .connecting i → ∀ k, (p.step x).phase.Done k → (p.step x).globals.Connected k

/-- When the last wait ends, all queues are connected. -/
def CompleteWhenDone (p : Process κ) (x : Input κ) : Prop :=
  ∀ i, p.phase = .connecting i → (p.step x).phase = .serving → ∀ q, (p.step x).globals.Connected q

/-- A disconnect, an unknown event or a failure to get one comes only when the queue
that `main` waits for is connected already, and a disconnect only of a later queue. -/
def Connects (p : Process κ) (x : Input κ) : Prop :=
  ∀ i, p.phase = .connecting i →
    match x.2 with
    | some (.connectRequest _ _) | some (.established _) => True
    | some (.disconnected id) =>
      ∀ k, p.globals.context id = some k → p.globals.Connected i ∧ i < k
    | some (.other _) | none => p.globals.Connected i

/-- The two event loops are not entered twice. -/
theorem connecting_of_step {p : Process κ} {x : Input κ} {j : Fin numQueues}
    (h : (p.step x).phase = .connecting j) : ∃ i, p.phase = .connecting i := by
  obtain ⟨v, event⟩ := x
  obtain ⟨phase, g⟩ := p
  cases phase with
  | connecting i => exact ⟨i, rfl⟩
  | serving =>
    cases event with
    | none => exact absurd h (exit_phase g j)
    | some e =>
      simp only [Process.step, Process.turn] at h
      cases hev : onEvent v e g with
      | ok ret g' =>
        simp only [hev] at h
        split at h
        · exact absurd h (exit_phase g' j)
        · cases h
      | error a g' =>
        simp only [hev] at h
        cases h
  | exited | died => cases h

/-- What `Finishes` says at one turn is what the next turn relies on. -/
theorem Finishes.waitedConnected {p : Process κ} {x : Input κ} (h : Finishes p x) :
    WaitedConnected (p.step x) := by
  intro j hj k hk
  obtain ⟨i, hi⟩ := connecting_of_step hj
  refine h i hi k ?_
  rw [hj]
  exact hk

section Turn

variable {i : Fin numQueues} {x : Input κ}

/-- A turn that ends the wait for queue `i` is complete if queue `i` and those
before it are connected. -/
theorem finishes_of_afterQueue {p : Process κ} (hphase : p.phase = .connecting i)
    (hstep : p.step x = ⟨.afterQueue i, g'⟩) : Finishes p x ↔ ∀ k ≤ i, g'.Connected k := by
  constructor
  · intro h k hk
    have hdone := h i hphase k
    rw [hstep] at hdone
    exact hdone (done_afterQueue.mpr hk)
  · intro h j _ k hk
    rw [hstep] at hk ⊢
    exact h k (done_afterQueue.mp hk)

/-- A handler that stops ends the process, not the wait. -/
theorem finishes_of_error {g : Globals κ} {e : CmEvent κ} {a : Abort}
    (herr : onEvent v e g = .error a g') : Finishes ⟨.connecting i, g⟩ (v, some e) := by
  intro j _ k hk
  simp only [Process.step, Process.turn, herr] at hk
  exact absurd hk id

/-- An event whose handler returns 0 ends the wait only if queue `i` is connected. -/
theorem finishes_of_ret_zero (hwaited : WaitedConnected ⟨.connecting i, g⟩) {e : CmEvent κ}
    (hzero : ∀ ret g', onEvent v e g = .ok ret g' →
      ret = 0 ∧ ∀ k, g.Connected k → g'.Connected k) :
    Finishes ⟨.connecting i, g⟩ (v, some e) := by
  cases hev : onEvent v e g with
  | error a g' => exact finishes_of_error hev
  | ok ret g' =>
    obtain ⟨rfl, hkeep⟩ := hzero ret g' hev
    have hbefore : ∀ k < i, g'.Connected k := fun k hk => hkeep k (hwaited i rfl k hk)
    by_cases hi : g'.Connected i
    · have hstep : Process.step ⟨.connecting i, g⟩ (v, some e) = ⟨.afterQueue i, g'⟩ := by
        simp only [Process.step, Process.turn, hev]
        exact if_pos (.inr hi)
      exact (finishes_of_afterQueue rfl hstep).mpr ((forall_le_connected_iff hbefore).mpr hi)
    · have hstep : Process.step ⟨.connecting i, g⟩ (v, some e) = ⟨.connecting i, g'⟩ := by
        simp only [Process.step, Process.turn, hev]
        refine if_neg ?_
        rintro (hret | hconn)
        · exact hret rfl
        · exact hi hconn
      intro j _ k hk
      rw [hstep] at hk ⊢
      exact hbefore k hk

/-- A disconnect ends the wait, and takes its own queue away. -/
theorem finishes_disconnected_iff (h : LoopInv ⟨.connecting i, g⟩)
    (hwaited : WaitedConnected ⟨.connecting i, g⟩) (id : κ) :
    Finishes ⟨.connecting i, g⟩ (v, some (.disconnected id)) ↔
      ∀ k, g.context id = some k → g.Connected i ∧ i < k := by
  have hreturns : (∃ ret g', onEvent v (.disconnected id) g = .ok ret g') ↔ _ :=
    disconnected_returns h.table (h.setUp trivial)
  cases hev : onEvent v (.disconnected id) g with
  | error a g' =>
    refine iff_of_true (finishes_of_error hev) fun k hctx => ?_
    obtain ⟨ret, g₁, hok⟩ := hreturns.mpr ⟨k, hctx⟩
    rw [hev] at hok
    cases hok
  | ok ret g' =>
    obtain ⟨q, hctx⟩ := hreturns.mp ⟨ret, g', hev⟩
    obtain ⟨rfl, -⟩ := anyConnected_disconnected hctx hev
    have hstep : Process.step ⟨.connecting i, g⟩ (v, some (.disconnected id)) =
        ⟨.afterQueue i, g'⟩ := by
      simp only [Process.step, Process.turn, hev]
      exact if_pos (.inl (by decide))
    rw [finishes_of_afterQueue rfl hstep]
    constructor
    · intro hall k hk
      rw [hctx] at hk
      cases hk
      refine ⟨((disconnected_connected hctx hev i).mp (hall i (le_refl i))).1, ?_⟩
      -- An earlier queue would now be disconnected.
      by_contra hle
      exact ((disconnected_connected hctx hev q).mp (hall q (not_lt.mp hle))).2 rfl
    · intro hlater k hk
      obtain ⟨hi, hlt⟩ := hlater q hctx
      refine (disconnected_connected hctx hev k).mpr ⟨?_, (lt_of_le_of_lt hk hlt).ne⟩
      exact (forall_le_connected_iff (hwaited i rfl)).mpr hi k hk

theorem finishes_iff {p : Process κ} (h : LoopInv p) (hwaited : WaitedConnected p) (x : Input κ) :
    Finishes p x ↔ Connects p x := by
  obtain ⟨v, event⟩ := x
  obtain ⟨phase, g⟩ := p
  cases phase with
  | connecting i =>
    have hconnects : Connects ⟨.connecting i, g⟩ (v, event) ↔ _ :=
      ⟨fun hc => hc i rfl, fun hc j hj => by cases hj; exact hc⟩
    rw [hconnects]
    have hsame : (∀ k ≤ i, g.Connected k) ↔ g.Connected i :=
      forall_le_connected_iff (hwaited i rfl)
    cases event with
    | none => exact (finishes_of_afterQueue rfl rfl).trans hsame
    | some e =>
      cases e with
      | connectRequest id param =>
        exact iff_of_true (finishes_of_ret_zero hwaited fun _ _ => connectRequest_keeps) trivial
      | established id =>
        exact iff_of_true (finishes_of_ret_zero hwaited fun _ _ => established_keeps) trivial
      | disconnected id => exact finishes_disconnected_iff h hwaited id
      | other id => exact (finishes_of_afterQueue rfl rfl).trans hsame
  | serving | exited | died =>
    refine iff_of_true ?_ ?_
    all_goals
      intro i hi
      cases hi

end Turn

/-! ## Runs -/

/-- In every run all waits end complete exactly if every step connects. -/
theorem each_finishes_iff (tr : List (Input κ)) :
    Each Process.step Finishes (.initial κ) tr ↔ Each Process.step Connects (.initial κ) tr := by
  refine Machine.each_iff_each (I := fun p => LoopInv p ∧ WaitedConnected p) ?_ ?_ ?_
  · rintro p x ⟨hloop, -⟩ hfin
    exact ⟨hloop.step x, hfin.waitedConnected⟩
  · rintro p x ⟨hloop, hwaited⟩
    exact finishes_iff hloop hwaited x
  · refine ⟨loopInv_initial, fun i hi k hk => ?_⟩
    cases hi
    exact absurd hk (Nat.not_lt_zero _)

theorem Finishes.completeWhenDone {p : Process κ} {x : Input κ} (h : Finishes p x) :
    CompleteWhenDone p x := by
  intro i hi hserving q
  refine h i hi q ?_
  rw [hserving]
  trivial

/-! ## The runs that end complete -/

/-- Whether an event says that a connection is up, or that it is down. -/
def CmEvent.link? (id : κ) : CmEvent κ → Option Bool
  | .established id' => if id' = id then some true else none
  | .disconnected id' => if id' = id then some false else none
  | .connectRequest .. | .other _ => none

/-- The last event that says so says that the connection is up. -/
def Up (id : κ) (tr : List (CmEvent κ)) : Prop := (tr.filterMap (CmEvent.link? id)).getLast? = some true

theorem up_none {id : κ} {tr : List (CmEvent κ)} {e : CmEvent κ} (he : e.link? id = none) :
    Up id (tr ++ [e]) ↔ Up id tr := by
  simp [Up, List.filterMap_append, he]

theorem up_established (id : κ) (tr : List (CmEvent κ)) : Up id (tr ++ [.established id]) := by
  simp [Up, List.filterMap_append, CmEvent.link?]

theorem not_up_disconnected (id : κ) (tr : List (CmEvent κ)) : ¬ Up id (tr ++ [.disconnected id]) := by
  simp [Up, List.filterMap_append, CmEvent.link?]

theorem mem_of_up {id : κ} {tr : List (CmEvent κ)} (h : Up id tr) : CmEvent.established id ∈ tr := by
  obtain ⟨e, he, hup⟩ := List.mem_filterMap.mp (List.mem_of_getLast? h)
  cases e with
  | established id' =>
    simp only [CmEvent.link?, Option.ite_none_right_eq_some, and_true] at hup
    rwa [← hup]
  | disconnected id' => simp [CmEvent.link?] at hup
  | connectRequest | other => cases hup

/-- The table has room for the connections, and its connected queues are those whose
connections are up. -/
structure Linked (tr : List (CmEvent κ)) (g : Globals κ) : Prop where
  room : (requests tr).length ≤ numQueues
  connected : ∀ q, g.Connected q ↔ ∃ id, (requests tr)[q.val]? = some id ∧ Up id tr

/-- An event about the connection of queue `q` is about no other queue. -/
theorem Linked.about {tr : List (CmEvent κ)} (h : Linked tr g) (hr : Records tr g) {e : CmEvent κ}
    {id : κ} {q : Fin numQueues} (hctx : g.context id = some q)
    (hreq : requests (tr ++ [e]) = requests tr) (hlink : ∀ c, id ≠ c → e.link? c = none)
    (hq : g'.Connected q ↔ Up id (tr ++ [e])) (hothers : ∀ k ≠ q, g'.Connected k ↔ g.Connected k) :
    Linked (tr ++ [e]) g' := by
  have hmine : (requests tr)[q.val]? = some id := (hr.assigned.context id q).mp hctx
  refine ⟨hreq ▸ h.room, fun k => ?_⟩
  rw [hreq]
  by_cases hk : k = q
  · subst hk
    rw [hq, hmine]
    simp
  · rw [hothers k hk, h.connected k]
    refine exists_congr fun c => and_congr_right fun hc => (up_none (hlink c ?_)).symm
    rintro rfl
    have hctx' := (hr.assigned.context id k).mpr hc
    rw [hctx] at hctx'
    exact hk (Option.some.inj hctx').symm

/-- A connect request gets the next queue, which is not connected yet. -/
theorem Linked.accepted {tr : List (CmEvent κ)} (h : Linked tr g) (hr : Records tr g) {id : κ}
    {param : ConnParam} {ret : ℤ} (hfresh : id ∉ requests tr)
    (hok : onEvent v (.connectRequest id param) g = .ok ret g') :
    Linked (tr ++ [.connectRequest id param]) g' := by
  have hreq : requests (tr ++ [.connectRequest id param]) = requests tr ++ [id] := requests_append ..
  have hdown : ¬ Up id tr := fun hup => hfresh (hr.established id (mem_of_up hup))
  obtain ⟨-, q, hq, -, rfl⟩ := onConnectRequest_ok hok
  constructor
  · have hlen := hr.assigned.queueCtr
    rw [hreq, List.length_append, List.length_singleton, ← hlen, ← hq]
    exact q.isLt
  · intro k
    rw [accepted_connected, h.connected k, hreq]
    refine exists_congr fun c => ?_
    rw [up_none rfl]
    refine and_congr_left fun hup => ?_
    have hc : c ≠ id := by
      rintro rfl
      exact hdown hup
    rw [List.getElem?_append]
    split
    · rfl
    · next hlen =>
      rw [List.getElem?_eq_none (not_lt.mp hlen)]
      simp [List.getElem?_singleton, Ne.symm hc]

theorem Linked.handled {tr : List (CmEvent κ)} (h : Linked tr g) (hr : Records tr g) {e : CmEvent κ}
    {ret : ℤ} (hfresh : ∀ id, e.request? = some id → id ∉ requests tr)
    (hok : onEvent v e g = .ok ret g') : Linked (tr ++ [e]) g' := by
  have hsame : requests [e] = [] → requests (tr ++ [e]) = requests tr := by
    intro hnone
    rw [requests_append, hnone, List.append_nil]
  cases e with
  | connectRequest id param => exact h.accepted hr (hfresh id rfl) hok
  | established id =>
    obtain ⟨q, hctx⟩ := context_of_established hok
    refine h.about hr hctx (hsame rfl) (fun c hc => if_neg hc) ?_ fun k hk => ?_
    · exact iff_of_true ((established_connected hctx hok q).mpr (.inl rfl)) (up_established id tr)
    · rw [established_connected hctx hok, or_iff_right hk]
  | disconnected id =>
    obtain ⟨q, hctx⟩ := context_of_disconnected hok
    refine h.about hr hctx (hsame rfl) (fun c hc => if_neg hc) ?_ fun k hk => ?_
    · exact iff_of_false (fun hq => ((disconnected_connected hctx hok q).mp hq).2 rfl)
        (not_up_disconnected id tr)
    · rw [disconnected_connected hctx hok, and_iff_left hk]
  | other id =>
    simp only [onEvent, pure_apply, EStateM.Result.ok.injEq] at hok
    obtain ⟨-, rfl⟩ := hok
    refine ⟨(hsame rfl).symm ▸ h.room, fun k => ?_⟩
    rw [h.connected k, hsame rfl]
    exact exists_congr fun c => and_congr_right fun _ => (up_none rfl).symm

/-- The events of a run that `rdma_get_cm_event` returned. -/
def received (tr : List (Input κ)) : List (CmEvent κ) := tr.filterMap Prod.snd

theorem run_linked (tr : List (Input κ)) (hnodup : (requests (received tr)).Nodup)
    (hin : (after Process.step (.initial κ) tr).InLoops) :
    Records (received tr) (after Process.step (.initial κ) tr).globals ∧
      Linked (received tr) (after Process.step (.initial κ) tr).globals := by
  induction tr using List.reverseRecOn with
  | nil =>
    refine ⟨records_initial, Nat.zero_le _, fun q => ?_⟩
    simp [Globals.Connected, Globals.initial, received, Process.initial]
  | append_singleton tr x ih =>
    obtain ⟨v, event⟩ := x
    rw [Machine.after_concat] at hin ⊢
    have hp : (after Process.step (.initial κ) tr).InLoops := by
      by_contra hp
      rw [Process.step, turn_of_not_inLoops hp] at hin
      exact hp hin
    cases event with
    | none =>
      have hsame : received (tr ++ [(v, none)]) = received tr := by simp [received]
      have hg : ((after Process.step (.initial κ) tr).step (v, none)).globals =
          (after Process.step (.initial κ) tr).globals := turn_none_globals hin
      rw [hsame] at hnodup ⊢
      rw [hg]
      exact ih hnodup hp
    | some e =>
      have hmore : received (tr ++ [(v, some e)]) = received tr ++ [e] := by simp [received]
      rw [hmore] at hnodup ⊢
      have hfresh : ∀ id, e.request? = some id → id ∉ requests (received tr) := by
        intro id hid
        rw [← List.append_nil (received tr ++ [e])] at hnodup
        exact fresh_of_nodup hnodup hid
      rw [requests_append] at hnodup
      obtain ⟨hr, hl⟩ := ih hnodup.of_append_left hp
      obtain ⟨ret, hok⟩ := onEvent_of_inLoops hp hin
      exact ⟨hr.handled hfresh hok, hl.handled hr hfresh hok⟩

/-- At the end of the connection phase, and as long as `main` is in its loops, all queues are
connected exactly if there was a connect request for each and all its connections are up. -/
theorem complete_iff (tr : List (Input κ)) (hnodup : (requests (received tr)).Nodup)
    (hin : (after Process.step (.initial κ) tr).InLoops) :
    (∀ q, (after Process.step (.initial κ) tr).globals.Connected q) ↔
      (requests (received tr)).length = numQueues ∧
        ∀ id ∈ requests (received tr), Up id (received tr) := by
  obtain ⟨-, hl⟩ := run_linked tr hnodup hin
  constructor
  · intro hall
    have hlen : (requests (received tr)).length = numQueues := by
      refine le_antisymm hl.room (not_lt.mp fun hlt => ?_)
      obtain ⟨id, hid, -⟩ := (hl.connected ⟨_, hlt⟩).mp (hall _)
      rw [List.getElem?_eq_none (le_refl _)] at hid
      cases hid
    refine ⟨hlen, fun id hid => ?_⟩
    obtain ⟨k, hk, hget⟩ := List.mem_iff_getElem.mp hid
    obtain ⟨c, hc, hup⟩ := (hl.connected ⟨k, hlen ▸ hk⟩).mp (hall _)
    rw [List.getElem?_eq_getElem hk, hget] at hc
    cases hc
    exact hup
  · rintro ⟨hlen, hup⟩ q
    have hq : q.val < (requests (received tr)).length := by
      rw [hlen]
      exact q.isLt
    exact (hl.connected q).mpr ⟨_, List.getElem?_eq_getElem hq, hup _ (List.getElem_mem hq)⟩

theorem each_connects_connections (n : ℕ) :
    Each Process.step Connects (.initial ℕ) (connections n) := by
  intro before x rest heq i _
  have hx : x ∈ connections n := by
    rw [heq]
    exact List.mem_append_right before List.mem_cons_self
  obtain ⟨k, -, hk⟩ := List.mem_flatMap.mp hx
  simp only [List.mem_cons, List.not_mem_nil, or_false] at hk
  obtain rfl | rfl := hk
  all_goals trivial

/-- In a run whose steps all connect, the connection phase ends with every queue connected. -/
theorem connection_phase_complete (tr : List (Input κ))
    (h : Each Process.step Connects (.initial κ) tr) :
    Each Process.step CompleteWhenDone (.initial κ) tr := by
  intro before x rest heq
  exact ((each_finishes_iff tr).mpr h before x rest heq).completeWhenDone

/-- The connection phase of `NUM_QUEUES` connections in turn. -/
theorem connection_phase_complete_all :
    (after Process.step (.initial ℕ) (connections 18)).phase = .serving ∧
      Each Process.step CompleteWhenDone (.initial ℕ) (connections 18) :=
  ⟨by decide, connection_phase_complete (connections 18) (each_connects_connections 18)⟩

/-- One event that `on_event` does not know, instead of the last connection, ends the
connection phase with queue 17 not connected. -/
theorem connection_phase_counterexample :
    ((after Process.step (.initial ℕ) (connections 17)).phase = .connecting ⟨17, by decide⟩ ∧
      (after Process.step (.initial ℕ) (connections 17 ++ [(goodVerbs, some (.other 0))])).phase =
        .serving ∧
      ¬ (after Process.step (.initial ℕ)
        (connections 17 ++ [(goodVerbs, some (.other 0))])).globals.Connected ⟨17, by decide⟩) ∧
    ¬ ∀ tr : List (Input ℕ), (∀ x ∈ tr, x.2.isSome) →
      Each Process.step CompleteWhenDone (.initial ℕ) tr := by
  have hwaits : (after Process.step (.initial ℕ) (connections 17)).phase =
      .connecting ⟨17, by decide⟩ := by
    decide
  have hserves : (after Process.step (.initial ℕ)
      (connections 17 ++ [(goodVerbs, some (.other 0))])).phase = .serving := by
    decide
  have hleft : ¬ (after Process.step (.initial ℕ)
      (connections 17 ++ [(goodVerbs, some (.other 0))])).globals.Connected ⟨17, by decide⟩ := by
    decide
  refine ⟨⟨hwaits, hserves, hleft⟩, fun h => hleft ?_⟩
  have hdone := h (connections 17 ++ [(goodVerbs, some (.other 0))]) (by decide) (connections 17) _ [] rfl
  rw [Machine.after_concat] at hserves ⊢
  exact hdone _ hwaits hserves _

end Multiswap.Server
