import Multiswap.Lib.Simulation
import Multiswap.Transport.Invariant

/-!
# The transfers take effect atomically

A store or a load over the queues takes effect when the hardware completes its work
request, between its start and its return. So a run over the queues is followed by a
run with atomic transfers, in which a call returns as soon as its data has been moved.
-/

namespace Multiswap.Transport

open Concurrent (Op)
open Queue (Internal)
open Rdma (Host WcStatus)
open Transition.System (Follows Steps)

variable {α : Type} {n : ℕ} {cfg : Config} {host : Host} {tr ev : List (Event α n)}
  {s s' : State α n} {tr' : List (Concurrent.Event α)} {t t' : Concurrent.State α} {p : Fin n}
  {q : QueueId} {memory : ℕ → ℕ → α}

/-- The data of a call has been moved: it has posted its request, and that is no longer
in flight. -/
def State.Arrived (s : State α n) (p : Fin n) : Prop :=
  ∃ q c, s.via p = some q ∧ (s.queues q).stage p = .draining c 0 ∧
    ∀ r ∈ (s.queues q).inflight, r.call.page ≠ p

/-- The call of a pageid and the same call with an atomic transfer, with what the calls of
the pageid returned so far. -/
inductive Matched (s : State α n) (t : Concurrent.State α) (p : Fin n)
    (h h' : List (Concurrent.Event α)) : Prop
  | same : ¬ s.Arrived p → t.op p = s.driver.op p → h' = h → Matched s t p h h'
  -- Only the atomic call has returned.
  | ahead : s.Arrived p → t.op p = .idle → h' = h ++ [s.result p 0] → Matched s t p h h'

/-- A run over the queues and the run with atomic transfers that follows it. -/
structure Related (tr : List (Event α n)) (s : State α n) (tr' : List (Concurrent.Event α))
    (t : Concurrent.State α) : Prop where
  sched : t.sched = s.driver.sched
  remote : t.remote = s.driver.remote
  calls : ∀ p : Fin n, Matched s t p (historyOf p (returns tr)) (historyOf p tr')

theorem historyOf_append (p : ℕ) (a b : List (Concurrent.Event α)) :
    historyOf p (a ++ b) = historyOf p a ++ historyOf p b := List.filter_append ..

theorem returns_append (a b : List (Event α n)) : returns (a ++ b) = returns a ++ returns b :=
  List.filterMap_append

theorem returns_onQueue (q : QueueId) (ev : List (Queue.Event (Fin n))) :
    returns (ev.map (Event.onQueue (α := α) q)) = [] := by
  rw [returns, List.filterMap_map]
  exact List.filterMap_eq_nil_iff.mpr fun e _ => rfl

theorem returns_returned (ev : List (Concurrent.Event α)) :
    returns (ev.map (Event.returned (n := n))) = ev := by
  rw [returns, List.filterMap_map]
  exact (List.filterMap_congr fun e _ => rfl).trans List.filterMap_some

/-- Events about one pageid are no history of another. -/
theorem historyOf_other {p p' : ℕ} (hp : p' ≠ p) {ev : List (Concurrent.Event α)}
    (hev : ∀ e ∈ ev, pageidOf e = p) : historyOf p' ev = [] := by
  refine List.filter_eq_nil_iff.mpr fun e he => ?_
  simp [hev e he, Ne.symm hp]

theorem pageidOf_result (s : State α n) (p : ℕ) (ret : ℤ) : pageidOf (s.result p ret) = p := by
  unfold State.result
  split
  · rfl
  · split <;> rfl

theorem historyOf_result (s : State α n) (p : ℕ) (ret : ℤ) :
    historyOf p [s.result p ret] = [s.result p ret] := by
  simp [historyOf, pageidOf_result]

theorem result_congr (hop : s'.driver.op p = s.driver.op p) (hpage : s'.pages p = s.pages p)
    (ret : ℤ) : s'.result p ret = s.result p ret := by
  simp only [State.result, hop, hpage]

/-- Nothing about the call of the pageid changes. -/
theorem Matched.frame {h h' : List (Concurrent.Event α)} (hm : Matched s t p h h')
    (hop : s'.driver.op p = s.driver.op p) (hpage : s'.pages p = s.pages p)
    (harrived : s'.Arrived p ↔ s.Arrived p) (ht : t'.op p = t.op p) : Matched s' t' p h h' := by
  cases hm with
  | same ha hto hh => exact .same (mt harrived.mp ha) (ht.trans (hto.trans hop.symm)) hh
  | ahead ha hto hh =>
    refine .ahead (harrived.mpr ha) (ht.trans hto) ?_
    rw [result_congr hop hpage]
    exact hh

/-- Whether the data of a call has been moved depends on its stage and its requests. -/
theorem arrived_congr (hvia : s'.via p = s.via p)
    (hstage : ∀ q c, s.via p = some q →
      ((s'.queues q).stage p = .draining c 0 ↔ (s.queues q).stage p = .draining c 0))
    (hin : ∀ q (r : Queue.Req), s.via p = some q → r.call.page = p →
      (r ∈ (s'.queues q).inflight ↔ r ∈ (s.queues q).inflight)) : s'.Arrived p ↔ s.Arrived p := by
  unfold State.Arrived
  rw [hvia]
  constructor
  · rintro ⟨q, c, hq, hdrain, hnone⟩
    exact ⟨q, c, hq, (hstage q c hq).mp hdrain, fun r hr hpage =>
      hnone r ((hin q r hq hpage).mpr hr) hpage⟩
  · rintro ⟨q, c, hq, hdrain, hnone⟩
    exact ⟨q, c, hq, (hstage q c hq).mpr hdrain, fun r hr hpage =>
      hnone r ((hin q r hq hpage).mp hr) hpage⟩

theorem not_arrived_of_via (hvia : s.via p = none) : ¬ s.Arrived p := by
  rintro ⟨q, c, hq, -⟩
  rw [hvia] at hq
  cases hq

theorem not_arrived_of_inflight {r : Queue.Req} (hvia : s.via p = some q)
    (hr : r ∈ (s.queues q).inflight) (hpage : r.call.page = p) : ¬ s.Arrived p := by
  rintro ⟨q', c, hq, -, hnone⟩
  rw [hvia] at hq
  cases hq
  exact hnone r hr hpage

theorem not_arrived_of_adding {c : Queue.Call} (hvia : s.via p = some q)
    (hadding : (s.queues q).stage p = .adding c) : ¬ s.Arrived p := by
  rintro ⟨q', d, hq, hdrain, -⟩
  rw [hvia] at hq
  cases hq
  rw [hadding] at hdrain
  cases hdrain

theorem Matched.op_eq {h h' : List (Concurrent.Event α)} (hm : Matched s t p h h')
    (ha : ¬ s.Arrived p) : t.op p = s.driver.op p ∧ h' = h := by
  cases hm with
  | same _ hto hh => exact ⟨hto, hh⟩
  | ahead ha' => exact absurd ha' ha

theorem Clean.append_left (h : Clean (tr ++ ev)) : Clean tr where
  mapped q i hmem := h.mapped q i (List.mem_append_left _ hmem)
  moved q r code hmem := h.moved q r code (List.mem_append_left _ hmem)

/-- A step that moves only one call, whose transfer has not arrived before and after. -/
theorem Related.one (hr : Related tr s tr' t) {ev' : List (Concurrent.Event α)}
    (hsched : t'.sched = s'.driver.sched) (hremote : t'.remote = s'.driver.remote) (p : Fin n)
    (hp : Matched s' t' p (historyOf p (returns (tr ++ ev))) (historyOf p (tr' ++ ev')))
    (hop : ∀ p' : ℕ, p' ≠ p → s'.driver.op p' = s.driver.op p' ∧ s'.pages p' = s.pages p' ∧
      t'.op p' = t.op p')
    (harrived : ∀ p', p' ≠ p → (s'.Arrived p' ↔ s.Arrived p'))
    (hret : ∀ e ∈ returns ev, pageidOf e = p) (hev : ∀ e ∈ ev', pageidOf e = p) :
    Related (tr ++ ev) s' (tr' ++ ev') t' := by
  refine ⟨hsched, hremote, fun p' => ?_⟩
  by_cases hpp : p' = p
  · subst hpp
    exact hp
  · have hne : (p' : ℕ) ≠ p := Fin.val_ne_of_ne hpp
    rw [returns_append, historyOf_append, historyOf_append, historyOf_other hne hret,
      historyOf_other hne hev, List.append_nil, List.append_nil]
    obtain ⟨hs, hpage, ht⟩ := hop p' hne
    exact (hr.calls p').frame hs hpage (harrived p' hpp) ht

/-- The step shows nothing to the swap core and leaves all calls where they are. -/
theorem Related.stutter (hr : Related tr s tr' t) (hdriver : s'.driver = s.driver)
    (hpages : s'.pages = s.pages) (harrived : ∀ p, s'.Arrived p ↔ s.Arrived p)
    (hret : returns ev = []) : Related (tr ++ ev) s' tr' t := by
  refine ⟨hr.sched.trans (by rw [hdriver]), hr.remote.trans (by rw [hdriver]), fun p => ?_⟩
  rw [returns_append, hret, List.append_nil]
  exact (hr.calls p).frame (by rw [hdriver]) (by rw [hpages]) (harrived p) rfl

/-- A call that is on no queue takes the same step in both runs. -/
theorem Related.advance (hr : Related tr s tr' t) (hvia : s.via p = none)
    {op : Op α} {sched : Scheduler} {remote : ℕ → ℕ → α} {ret : List (Concurrent.Event α)}
    (hdriver : s'.driver = ⟨sched, remote, Function.update s.driver.op p op⟩)
    (hpages : ∀ p' : ℕ, p' ≠ p → s'.pages p' = s.pages p') (hv : s'.via = s.via)
    (hqueues : s'.queues = s.queues) (hret : returns ev = ret) (habout : ∀ e ∈ ret, pageidOf e = p) :
    Related (tr ++ ev) s' (tr' ++ ret) ⟨sched, remote, Function.update t.op p op⟩ := by
  have harrived : ∀ p', s'.Arrived p' ↔ s.Arrived p' := fun p' =>
    arrived_congr (by rw [hv]) (fun _ _ _ => by rw [hqueues]) fun _ _ _ _ => by rw [hqueues]
  have hnot : ¬ s.Arrived p := not_arrived_of_via hvia
  refine hr.one (by rw [hdriver]) (by rw [hdriver]) p ?_ ?_ (fun p' _ => harrived p') (hret ▸ habout)
    habout
  · refine .same (mt (harrived p).mp hnot) ?_ ?_
    · rw [hdriver]
      simp
    · rw [returns_append, hret, historyOf_append, historyOf_append, ((hr.calls p).op_eq hnot).2]
  · intro p' hpp
    refine ⟨?_, hpages p' hpp, Function.update_of_ne hpp _ _⟩
    rw [hdriver]
    exact Function.update_of_ne hpp _ _

/-- The state after the hardware has completed a work request. -/
def State.completed (s : State α n) (q : QueueId) (before after : List Queue.Req) (r : Queue.Req)
    (status : WcStatus) : State α n :=
  (s.moveData q r status).setQueue q
    { s.queues q with inflight := before ++ after, cq := (s.queues q).cq ++ [(r, status)] }

section Complete

variable {before after : List Queue.Req} {r : Queue.Req}

theorem completed_stage (s : State α n) (status : WcStatus) (q' : QueueId) :
    ((s.completed q before after r status).queues q').stage = (s.queues q').stage := by
  obtain ⟨-, -, -, hqueues, -⟩ := moveData_eq s q r status
  by_cases hq : q' = q
  · subst hq
    funext p
    simp [State.completed, State.setQueue, Queue.State.stage]
  · simp [State.completed, State.setQueue, hq, hqueues]

theorem completed_via (s : State α n) (status : WcStatus) :
    (s.completed q before after r status).via = s.via := (moveData_eq s q r status).2.2.1

/-- The data of the call has now been moved. -/
theorem completed_arrived (hi : Inv tr s) (hin : (s.queues q).inflight = before ++ r :: after)
    (status : WcStatus) (hvia : s.via p = some q) (hpage : r.call.page = p)
    (hdrain : (s.queues q).stage p = .draining r.call 0) :
    (s.completed q before after r status).Arrived p := by
  refine ⟨q, r.call, by rw [completed_via, hvia], by rw [completed_stage, hdrain], ?_⟩
  intro r' hr' hpage'
  have hmem : r' ∈ before ++ after := by simpa [State.completed, State.setQueue] using hr'
  have hnodup := hi.unique q
  rw [hin, List.map_append, List.map_cons] at hnodup
  have hnot := (List.nodup_middle.mp hnodup).notMem
  rw [← List.map_append] at hnot
  exact hnot (List.mem_map.mpr ⟨r', hmem, hpage'.trans hpage.symm⟩)

theorem completed_arrived_other (hin : (s.queues q).inflight = before ++ r :: after)
    (status : WcStatus) {p' : Fin n} (hpage : r.call.page ≠ p') :
    (s.completed q before after r status).Arrived p' ↔ s.Arrived p' := by
  refine arrived_congr (by rw [completed_via]) (fun _ _ _ => by rw [completed_stage])
    fun q' r' _ hpage' => ?_
  by_cases hq : q' = q
  · subst hq
    have hne : r' ≠ r := by
      rintro rfl
      exact hpage hpage'
    simp [State.completed, State.setQueue, hin, hne]
  · obtain ⟨-, -, -, hqueues, -⟩ := moveData_eq s q r status
    simp [State.completed, State.setQueue, hq, hqueues]

/-- The hardware moves the data of a call: its atomic call returns. -/
theorem Related.complete (hr : Related tr s tr' t) (hi : Inv tr s)
    (hin : (s.queues q).inflight = before ++ r :: after) :
    ∃ ev' t', Steps (Concurrent.Step cfg n) t ev' t' ∧
      Related (tr ++ [.completed q r .success]) (s.completed q before after r .success)
        (tr' ++ ev') t' := by
  have hmem : r ∈ (s.queues q).inflight := by
    rw [hin]
    simp
  obtain ⟨p, hvia, hpage, hdrain, hx⟩ := hi.request hmem
  obtain ⟨hto, hhist⟩ := (hr.calls p).op_eq (not_arrived_of_inflight hvia hmem hpage)
  obtain ⟨hop, hsched, -, -, -⟩ := moveData_eq s q r .success
  have harrived := completed_arrived hi hin .success hvia hpage hdrain
  have hother : ∀ p' : Fin n, p' ≠ p →
      ((s.completed q before after r .success).Arrived p' ↔ s.Arrived p') := fun p' hpp =>
    completed_arrived_other hin .success (by rw [hpage]; exact Fin.val_ne_of_ne (Ne.symm hpp))
  have hpages : ∀ p' : ℕ, p' ≠ p → (s.completed q before after r .success).pages p' = s.pages p' :=
    fun p' hpp => moveData_pages s q .success fun _ heq => hpp (heq.trans hpage)
  have hdone : ∀ e : Concurrent.Event α,
      (s.completed q before after r .success).result p 0 = e → pageidOf e = p →
        historyOf p (tr' ++ [e]) = historyOf p (returns (tr ++ [.completed q r .success])) ++
          [(s.completed q before after r .success).result p 0] := by
    rintro e rfl -
    have hret : returns [Event.completed (α := α) (n := n) q r .success] = [] := rfl
    rw [historyOf_append, historyOf_result, hhist, returns_append, hret, List.append_nil]
  cases hopc : r.call.op with
  | rdmaWrite =>
    rw [hopc] at hx
    obtain ⟨hlt, page, hw⟩ := transfer?_write hx
    have hpage' : s.pages p = page := hi.pages p page (by rw [hw]; rfl)
    have hstep : Concurrent.stepOp cfg p t = .ok (.idle, t.sched,
        Function.update t.remote q.dev (Function.update (t.remote q.dev) (s.roffset q r) page),
        [.stored p page 0]) := by
      simp only [Concurrent.stepOp, hto, hw, ge_iff_le, if_neg (Nat.not_le.mpr hlt)]
    have hresult : (s.completed q before after r .success).result p 0 = .stored p page 0 := by
      simp [State.result, State.completed, State.setQueue, hop, hw]
    refine ⟨_, _, .single (.advance p (by simp [hto, hw]) hstep), hr.one ?_ ?_ p ?_ ?_ hother ?_ ?_⟩
    · exact hr.sched.trans hsched.symm
    · simp [State.completed, State.setQueue, State.moveData, hopc, hr.remote, hpage, hpage']
    · exact .ahead harrived (Function.update_self ..) (hdone _ hresult rfl)
    · intro p' hpp
      exact ⟨congrFun hop p', hpages p' hpp, Function.update_of_ne hpp _ _⟩
    · simp [returns, Event.returned?]
    · simp [pageidOf]
  | rdmaRead =>
    rw [hopc] at hx
    obtain ⟨hlt, hl⟩ := transfer?_read hx
    have hstep : Concurrent.stepOp cfg p t = .ok (.idle, t.sched, t.remote,
        [.loaded p 0 (some (t.remote q.dev (s.roffset q r)))]) := by
      simp only [Concurrent.stepOp, hto, hl, ge_iff_le, if_neg (Nat.not_le.mpr hlt)]
    have hresult : (s.completed q before after r .success).result p 0 =
        .loaded p 0 (some (t.remote q.dev (s.roffset q r))) := by
      simp [State.result, State.completed, State.setQueue, State.moveData, hopc, hl, hr.remote, hpage]
    refine ⟨_, _, .single (.advance p (by simp [hto, hl]) hstep), hr.one ?_ ?_ p ?_ ?_ hother ?_ ?_⟩
    · exact hr.sched.trans hsched.symm
    · simp [State.completed, State.setQueue, State.moveData, hopc, hr.remote]
    · exact .ahead harrived (Function.update_self ..) (hdone _ hresult rfl)
    · intro p' hpp
      exact ⟨congrFun hop p', hpages p' hpp, Function.update_of_ne hpp _ _⟩
    · simp [returns, Event.returned?]
    · simp [pageidOf]

end Complete

/-! ## Failed mappings -/

theorem Unmapped.append (h : Unmapped p tr) (hret : ∀ e ∈ returns ev, pageidOf e ≠ p) :
    Unmapped p (tr ++ ev) := by
  obtain ⟨before, after, q, i, rfl, hi, hafter⟩ := h
  refine ⟨before, after ++ ev, q, i, by simp, hi, fun e he => ?_⟩
  rw [returns_append] at he
  exact (List.mem_append.mp he).elim (hafter e) (hret e)

/-- The event is the last one of its call so far. -/
theorem unmapped_of_mem (hmem : Event.onQueue q (.mapFailed p) ∈ ev) (hret : returns ev = []) :
    Unmapped p (tr ++ ev) := by
  obtain ⟨before, after, rfl⟩ := List.append_of_mem hmem
  refine ⟨tr ++ before, after, q, p, by simp, rfl, fun e he => ?_⟩
  have hnil : returns (Event.onQueue (α := α) q (.mapFailed p) :: after) = [] := by
    rw [returns_append] at hret
    exact (List.append_eq_nil_iff.mp hret).2
  have hnone : returns after = [] := hnil
  rw [hnone] at he
  cases he

/-- A call that drains its queue with an error drained it before, or its mapping or post has
just failed. -/
theorem Step.failed_of_draining (hs : Step cfg host s ev s') (hi : Inv tr s) {c : Queue.Call}
    {ret : ℤ} (hdrain : (s'.queues q).stage p = .draining c ret) (hret : ret ≠ 0) :
    ((s.queues q).stage p = .draining c ret ∧ ∀ e ∈ returns ev, pageidOf e ≠ p) ∨
      ∃ e, .onQueue q e ∈ ev ∧ e.FailureOf p ∧ returns ev = [] := by
  have hqueue : ∀ {q₀ : QueueId} {evq : List (Queue.Event (Fin n))} {u : Queue.State (Fin n)},
      Queue.Step (s.queues q₀) evq u → (Function.update s.queues q₀ u q).stage p = .draining c ret →
        (s.queues q).stage p = .draining c ret ∨ q = q₀ ∧ ∃ e ∈ evq, e.FailureOf p := by
    intro q₀ evq u hu hd
    by_cases hq : q = q₀
    · subst hq
      rw [Function.update_self] at hd
      exact (hu.failed_of_draining (Queue.run_ownRequests (hi.runs q)) hd hret).imp_right
        fun hfail => ⟨rfl, hfail⟩
    · rw [Function.update_of_ne hq] at hd
      exact .inl hd
  -- the call of the pageid has picked the queue
  have hvia : (s.queues q).stage p = .draining c ret → s.via p = some q := by
    intro hd
    by_contra hne
    rw [hi.off q p hne] at hd
    cases hd
  cases hs with
  | callStore | callLoad => exact .inl ⟨hdrain, by simp [returns]⟩
  | schedule p₀ hne hnone hstep =>
    refine .inl ⟨hdrain, fun e he hpage => ?_⟩
    rw [returns_returned] at he
    have hp₀ : p₀ = p := Fin.ext (((stepOp_frame hstep).1 e he).symm.trans hpage)
    have hpicked := hvia hdrain
    rw [← hp₀, hi.via_none hnone] at hpicked
    cases hpicked
  | @start p₀ x q₀ cpuid hx hnone =>
    have hidle := Queue.Pc.stage_eq_idle.mp (hi.off q₀ p₀ (by rw [hnone]; simp))
    obtain hd | ⟨-, e, he, -⟩ := hqueue (.call p₀ ⟨x.opcode, p₀⟩ hidle) hdrain
    · exact .inl ⟨hd, by simp [returns]⟩
    · cases he
  | internal q₀ hin =>
    obtain hd | ⟨rfl, e, he, hfail⟩ := hqueue hin.step hdrain
    · exact .inl ⟨hd, by rw [returns_onQueue]; simp⟩
    · exact .inr ⟨e, List.mem_map_of_mem he, hfail, returns_onQueue ..⟩
  | post q₀ p₀ hx hu =>
    obtain hd | ⟨-, e, he, hfail⟩ := hqueue hu hdrain
    · exact .inl ⟨hd, by simp [returns, Event.returned?]⟩
    · cases List.mem_singleton.mp he
      exact hfail.elim
  | @complete q₀ before after r status hin =>
    have hd : ((s.completed q₀ before after r status).queues q).stage p = .draining c ret := hdrain
    rw [completed_stage] at hd
    exact .inl ⟨hd, by simp [returns, Event.returned?]⟩
  | @leave q₀ p₀ d ret₀ u hu =>
    obtain hd | ⟨-, e, he, hfail⟩ := hqueue hu hdrain
    · refine .inl ⟨hd, fun e he hpage => ?_⟩
      obtain ⟨-, hstage, -, -, hvia₀⟩ := hi.leaves hu
      have hresult : e = s.result p₀ ret₀ := List.mem_singleton.mp he
      rw [hresult, pageidOf_result] at hpage
      obtain rfl : p₀ = p := Fin.ext hpage
      obtain rfl : q = q₀ := by
        rw [hvia hd] at hvia₀
        exact Option.some.inj hvia₀
      simp [State.setQueue, State.setOp, hstage] at hdrain
    · cases List.mem_singleton.mp he
      exact hfail.elim

/-- A call drains its queue with an error only when its page could not be mapped, or when a
post on the queue has failed. -/
def Blamed (tr : List (Event α n)) (s : State α n) : Prop :=
  ∀ (p : Fin n) q c ret, (s.queues q).stage p = .draining c ret → ret ≠ 0 →
    Unmapped p tr ∨ ∃ i r ret', .onQueue q (.postFailed i r ret') ∈ tr

theorem run_blamed (h : (system cfg host n memory).Run tr s) : Blamed tr s := by
  refine h.invariant (I := Blamed) (fun s hs p q c ret hdrain => ?_)
    fun tr s ev s' hrun hb hs p q c ret hdrain hret => ?_
  · obtain ⟨pages, rfl⟩ := hs
    cases hdrain
  · obtain ⟨hd, hother⟩ | ⟨e, he, hfail, hnone⟩ := hs.failed_of_draining (run_inv hrun) hdrain hret
    · obtain hun | ⟨i, r, ret', hpost⟩ := hb p q c ret hd hret
      · exact .inl (hun.append hother)
      · exact .inr ⟨i, r, ret', List.mem_append_left _ hpost⟩
    · cases e with
      | mapFailed j =>
        obtain rfl : j = p := hfail
        exact .inl (unmapped_of_mem he hnone)
      | postFailed j r ret' => exact .inr ⟨j, r, ret', List.mem_append_right _ he⟩
      | _ => exact hfail.elim

/-- A transfer that does not return 0 could not map its page. -/
theorem unmapped_of_leave (hb : Blamed tr s) (hi : Inv tr s) {t : Queue.State (Fin n)}
    {d : Queue.Call} {ret : ℤ} (hs : Queue.Step (s.queues q) [.returned p d ret] t)
    (hret : ret ≠ 0) : Unmapped p tr := by
  obtain ⟨hdrain, -, -, hzero, -⟩ := hi.leaves hs
  obtain ⟨-, -, hposted⟩ := Queue.drained_of_leave (hi.runs q) hzero
  obtain hun | ⟨i, r, ret', hpost⟩ := hb p q d ret hdrain hret
  · exact hun
  · have hmem : .postFailed i r ret' ∈ tr.filterMap (Event.on? q) :=
      List.mem_filterMap.mpr ⟨_, hpost, if_pos rfl⟩
    exact absurd hmem (Queue.failedPosts_eq_zero.mp hposted i r ret')

/-- A call whose transfer returns 0 has its data moved, or was told that it is. -/
theorem arrived_of_leave (hi : Inv tr s) {t : Queue.State (Fin n)} {d : Queue.Call}
    (hs : Queue.Step (s.queues q) [.returned p d 0] t) : s.Arrived p := by
  obtain ⟨hdrain, -, -, hzero, hvia⟩ := hi.leaves hs
  obtain ⟨hempty, -, -⟩ := Queue.drained_of_leave (hi.runs q) hzero
  exact ⟨q, d, hvia, hdrain, by simp [hempty]⟩

/-- A return is none of the business of another call. -/
theorem leave_arrived_other (hi : Inv tr s) {t : Queue.State (Fin n)} {d : Queue.Call} {ret : ℤ}
    (hs : Queue.Step (s.queues q) [.returned p d ret] t) {p' : Fin n} (hpp : p' ≠ p) :
    State.Arrived { (s.setOp p .idle).setQueue q t with via := Function.update s.via p none } p' ↔
      s.Arrived p' := by
  obtain ⟨-, hstage, hin, -, -⟩ := hi.leaves hs
  have hv : Function.update s.via p none p' = s.via p' := Function.update_of_ne hpp _ _
  refine arrived_congr hv (fun q' c _ => ?_) fun q' r _ _ => ?_
  · by_cases hq : q' = q
    · subst hq
      simp [State.setQueue, State.setOp, hstage, hpp]
    · simp [State.setQueue, State.setOp, hq]
  · by_cases hq : q' = q
    · subst hq
      simp [State.setQueue, State.setOp, hin]
    · simp [State.setQueue, State.setOp, hq]

theorem Related.leave (hr : Related tr s tr' t) (hb : Blamed tr s) (hi : Inv tr s) (hclean : Clean tr)
    {u : Queue.State (Fin n)} {d : Queue.Call} {ret : ℤ}
    (hs : Queue.Step (s.queues q) [.returned p d ret] u) :
    Related (tr ++ [.onQueue q (.returned p d ret), .returned (s.result p ret)])
      { (s.setOp p .idle).setQueue q u with via := Function.update s.via p none } (tr' ++ []) t := by
  obtain rfl : ret = 0 := by
    by_contra hne
    obtain ⟨before, after, q', i, rfl, -⟩ := unmapped_of_leave hb hi hs hne
    exact hclean.mapped q' i (by simp)
  have harrived := arrived_of_leave hi hs
  have hret : returns [Event.onQueue q (.returned p d 0), .returned (s.result p 0)] =
      [s.result p 0] := rfl
  refine hr.one hr.sched hr.remote p ?_ ?_ ?_ ?_ (by simp)
  · cases hr.calls p with
    | same hnot => exact absurd harrived hnot
    | ahead _ hto hh =>
      refine .same (not_arrived_of_via (Function.update_self ..)) ?_ ?_
      · rw [hto]
        simp [State.setQueue, State.setOp]
      · rw [List.append_nil, hh, returns_append, hret, historyOf_append, historyOf_result]
  · intro p' hpp
    exact ⟨by simp [State.setQueue, State.setOp, hpp], rfl, rfl⟩
  · exact fun p' hpp => leave_arrived_other hi hs hpp
  · rw [hret]
    simp [pageidOf_result]

/-- A call picks its queue. -/
theorem start_arrived (hvia : s.via p = none) (c : Queue.Call) (p' : Fin n) :
    State.Arrived { s.setQueue q ((s.queues q).goto p (.pressure c)) with
      via := Function.update s.via p (some q) } p' ↔ s.Arrived p' := by
  have hstage := Queue.stage_goto (s.queues q) p (.pressure c)
  by_cases hpp : p' = p
  · subst hpp
    refine iff_of_false ?_ (not_arrived_of_via hvia)
    refine not_arrived_of_adding (c := c) (Function.update_self ..) ?_
    simp [State.setQueue, hstage, Queue.Pc.stage]
  · have hv : Function.update s.via p (some q) p' = s.via p' := Function.update_of_ne hpp _ _
    refine arrived_congr hv (fun q' d _ => ?_) fun q' r _ _ => ?_
    · by_cases hq : q' = q
      · subst hq
        simp [State.setQueue, hstage, hpp]
      · simp [State.setQueue, hq]
    · by_cases hq : q' = q
      · subst hq
        simp [State.setQueue, Queue.State.goto]
      · simp [State.setQueue, hq]

theorem internal_arrived (hi : Inv tr s) {evq : List (Queue.Event (Fin n))}
    {u : Queue.State (Fin n)} (h : Internal (s.queues q) evq u) (p : Fin n) :
    (s.setQueue q u).Arrived p ↔ s.Arrived p := by
  obtain ⟨hdrift, hin⟩ := internal_drift h (Queue.run_ownRequests (hi.runs q))
  refine arrived_congr rfl (fun q' d _ => ?_) fun q' r _ _ => ?_
  · by_cases hq : q' = q
    · subst hq
      simpa [State.setQueue] using (hdrift p).draining_iff
    · simp [State.setQueue, hq]
  · by_cases hq : q' = q
    · subst hq
      simp [State.setQueue, hin]
    · simp [State.setQueue, hq]

/-- A posted request is in flight. -/
theorem post_arrived (hi : Inv tr s) {u : Queue.State (Fin n)} {r : Queue.Req}
    (hs : Queue.Step (s.queues q) [.posted p r] u) (roffset : QueueId → Queue.Req → ℕ)
    (p' : Fin n) : State.Arrived { s.setQueue q u with roffset := roffset } p' ↔ s.Arrived p' := by
  obtain ⟨hadding, hstage, hin, hvia, hpage, -⟩ := hi.posts hs
  by_cases hpp : p' = p
  · subst hpp
    refine iff_of_false ?_ (not_arrived_of_adding hvia hadding)
    exact not_arrived_of_inflight (r := r) hvia (by simp [State.setQueue, hin]) hpage
  · refine arrived_congr rfl (fun q' d _ => ?_) fun q' r' _ hpage' => ?_
    · by_cases hq : q' = q
      · subst hq
        simp [State.setQueue, hstage, hpp]
      · simp [State.setQueue, hq]
    · by_cases hq : q' = q
      · subst hq
        have hne : r' ≠ r := by
          rintro rfl
          exact hpp (Fin.ext (hpage'.symm.trans hpage))
        simp [State.setQueue, hin, hne]
      · simp [State.setQueue, hq]

/-- The run with atomic transfers can always keep up. -/
theorem follows (cfg : Config) (host : Host) (n : ℕ) (memory : ℕ → ℕ → α) :
    Follows (system cfg host n memory) (Concurrent.system cfg n memory) Clean Related where
  closed _ _ h := h.append_left
  init s hs := by
    obtain ⟨pages, rfl⟩ := hs
    refine ⟨_, rfl, rfl, rfl, fun p => .same (not_arrived_of_via rfl) rfl rfl⟩
  step tr ev s s' tr' t hrun hs hclean hr := by
    have hi := run_inv hrun
    cases hs with
    | callStore p page hidle =>
      have hvia := hi.via_none (p := p) (by rw [hidle]; rfl)
      have hto := ((hr.calls p).op_eq (not_arrived_of_via hvia)).1.trans hidle
      refine ⟨_, _, .single (.callStore p page p.isLt hto), ?_⟩
      refine hr.advance hvia ?_ ?_ rfl rfl rfl (by simp)
      · rw [hr.sched, hr.remote]
        rfl
      · intro p' hpp
        exact Function.update_of_ne hpp _ _
    | callLoad p page hidle =>
      have hvia := hi.via_none (p := p) (by rw [hidle]; rfl)
      have hto := ((hr.calls p).op_eq (not_arrived_of_via hvia)).1.trans hidle
      refine ⟨_, _, .single (.callLoad p p.isLt hto), ?_⟩
      refine hr.advance hvia ?_ ?_ rfl rfl rfl (by simp)
      · rw [hr.sched, hr.remote]
        rfl
      · intro p' hpp
        exact Function.update_of_ne hpp _ _
    | schedule p hne hnone hstep =>
      have hvia := hi.via_none hnone
      have hto := ((hr.calls p).op_eq (not_arrived_of_via hvia)).1
      have hstep' := (stepOp_congr cfg hr.sched hr.remote hto).trans hstep
      refine ⟨_, _, .single (.advance p (by rwa [hto]) hstep'), ?_⟩
      exact hr.advance hvia rfl (fun _ _ => rfl) rfl rfl (returns_returned _) (stepOp_frame hstep).1
    | start p cpuid hx hvia hdev hcpu hq =>
      refine ⟨[], t, .refl t, ?_⟩
      rw [List.append_nil tr']
      exact hr.stutter rfl rfl (start_arrived hvia _) rfl
    | internal q hin =>
      refine ⟨[], t, .refl t, ?_⟩
      rw [List.append_nil tr']
      exact hr.stutter rfl rfl (internal_arrived hi hin) (returns_onQueue q _)
    | post q p hx hs =>
      refine ⟨[], t, .refl t, ?_⟩
      rw [List.append_nil tr']
      exact hr.stutter rfl rfl (post_arrived hi hs _) rfl
    | @complete q before after r status hin =>
      cases status with
      | success => exact hr.complete hi hin
      | error code => exact absurd (by simp) (hclean.moved q r code)
    | leave q p hs => exact ⟨[], t, .refl t, hr.leave (run_blamed hrun) hi hclean.append_left hs⟩

/-- A run with atomic transfers that a run over the queues amounts to: the same scheduler
and remote memory, and for every pageid the same returned calls, except that the last call
may not have returned yet. -/
structure Linearizes (tr : List (Event α n)) (s : State α n) (tr' : List (Concurrent.Event α))
    (t : Concurrent.State α) : Prop where
  sched : t.sched = s.driver.sched
  remote : t.remote = s.driver.remote
  returned : ∀ p : Fin n, historyOf p (returns tr) <+: historyOf p tr'
  oneMore : ∀ p : Fin n, (historyOf p tr').length ≤ (historyOf p (returns tr)).length + 1
  idle : ∀ p : Fin n, s.driver.op p = .idle →
    t.op p = .idle ∧ historyOf p tr' = historyOf p (returns tr)

theorem Related.linearizes (hr : Related tr s tr' t) (hi : Inv tr s) : Linearizes tr s tr' t := by
  refine ⟨hr.sched, hr.remote, fun p => ?_, fun p => ?_, fun p hidle => ?_⟩
  · cases hr.calls p with
    | same _ _ hh => rw [hh]
    | ahead _ _ hh => rw [hh]; exact List.prefix_append _ _
  · cases hr.calls p with
    | same _ _ hh => rw [hh]; exact Nat.le_succ _
    | ahead _ _ hh => rw [hh, List.length_append, List.length_singleton]
  · have hvia := hi.via_none (p := p) (by rw [hidle]; rfl)
    obtain ⟨hto, hh⟩ := (hr.calls p).op_eq (not_arrived_of_via hvia)
    exact ⟨hto.trans hidle, hh⟩

/-- Stores and loads over the queues are linearizable: every run amounts to a run with
atomic transfers, and wherever the one is cut in two, so is the other. -/
theorem linearizable {memory : ℕ → ℕ → α} (h : (system cfg host n memory).Run tr s)
    (hs : Steps (Step cfg host) s ev s') (hclean : Clean (tr ++ ev)) :
    ∃ tr' t ev' t', (Concurrent.system cfg n memory).Run tr' t ∧
      Steps (Concurrent.Step cfg n) t ev' t' ∧ Linearizes tr s tr' t ∧
        Linearizes (tr ++ ev) s' (tr' ++ ev') t' := by
  obtain ⟨tr', t, ht, hr⟩ := (follows cfg host n memory).run h hclean.append_left
  obtain ⟨ev', t', ht', hr'⟩ := (follows cfg host n memory).steps h hs hclean hr
  exact ⟨tr', t, ev', t', ht, ht', hr.linearizes (run_inv h), hr'.linearizes (run_inv (h.steps hs))⟩

end Multiswap.Transport
