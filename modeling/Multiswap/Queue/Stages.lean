import Multiswap.Queue.Counter

/-!
# The stages of a call

Seen from outside its queue, a call adds its request, drains the queue and returns.
A step of the queue and its callers is one of seven turns, and most steps change no
stage and post nothing.
-/

namespace Multiswap.Queue

open Rdma (WcStatus)

/-- How far the call of a caller has got. -/
inductive Stage where
  | idle
  -- In `write_queue_add` or `read_queue_add`.
  | adding (c : Call)
  -- In the `drain_queue` after it; `ret` is what it returned.
  | draining (c : Call) (ret : ℤ)
  -- Stopped by the kernel.
  | stopped
  deriving DecidableEq, Repr

/-- The stage of a caller that polls. -/
def Loop.stage (l : Loop) (c : Call) : Stage :=
  match l with
  | .target _ => .adding c
  | .drain ret => .draining c ret

/-- The stage of a caller. -/
def Pc.stage : Pc → Stage
  | .idle => .idle
  | .pressure c | .alloc c | .map c _ | .raise c _ | .post c _ => .adding c
  | .loop c l | .lock c l | .poll c l _ | .handle c l _ _ _ => l.stage c
  | .crashed _ => .stopped

@[simp] theorem Loop.stage_polled (l : Loop) (c : Call) (taken : ℕ) :
    (l.polled taken).stage c = l.stage c := by
  cases l <;> rfl

theorem Pc.stage_eq_idle {pc : Pc} : pc.stage = .idle ↔ pc = .idle := by
  constructor
  · intro h
    cases pc with
    | idle => rfl
    | loop c l | lock c l | poll c l | handle c l => cases l <;> cases h
    | _ => cases h
  · rintro rfl
    rfl

variable {ι : Type}

/-- The stages of all callers. -/
def State.stage (s : State ι) (i : ι) : Stage := (s.pc i).stage

/-- An event that neither ends a call nor its request. -/
def Event.Inside : Event ι → Prop
  | .allocated .. | .allocFailed _ | .mapped .. | .handled .. => True
  | .mapFailed _ | .badFree _ | .posted .. | .postFailed .. | .returned .. => False

/-- `get_req_for_page` or `ib_post_send` reports an error to its caller. -/
def Event.Failure : Event ι → Prop
  | .mapFailed _ | .badFree _ | .postFailed .. => True
  | .allocated .. | .allocFailed _ | .mapped .. | .posted .. | .handled .. | .returned .. => False

/-- The mapping or the post of a caller has failed. -/
def Event.FailureOf (i : ι) : Event ι → Prop
  | .mapFailed j | .postFailed j .. => j = i
  | _ => False

variable [DecidableEq ι] {s s' : State ι} {tr ev : List (Event ι)} {i : ι}

/-- What a step is for the calls and for the requests in flight. -/
inductive Turn (s : State ι) : List (Event ι) → State ι → Prop
  | call {s' : State ι} (i : ι) (c : Call) : s.stage i = .idle →
      s'.stage = Function.update s.stage i (.adding c) → s'.inflight = s.inflight → Turn s [] s'
  -- Every call stays in its stage.
  | inside {s' : State ι} {ev : List (Event ι)} : s'.stage = s.stage → s'.inflight = s.inflight →
      (∀ e ∈ ev, e.Inside) → Turn s ev s'
  | stop {s' : State ι} {ev : List (Event ι)} (i : ι) {c : Call} : s.stage i = .adding c →
      s'.stage = Function.update s.stage i .stopped → s'.inflight = s.inflight →
      (∀ e ∈ ev, e.Inside) → Turn s ev s'
  | fail {s' : State ι} {ev : List (Event ι)} (i : ι) {c : Call} {ret : ℤ} : s.stage i = .adding c →
      ret ≠ 0 → s'.stage = Function.update s.stage i (afterAdd c ret).stage →
      s'.inflight = s.inflight → (∃ e ∈ ev, e.FailureOf i) → (∀ e ∈ ev, e.Failure) → Turn s ev s'
  | post {s' : State ι} (i : ι) {r : Req} : s.stage i = .adding r.call →
      s'.stage = Function.update s.stage i (.draining r.call 0) →
      s'.inflight = s.inflight ++ [r] → Turn s [.posted i r] s'
  | leave {s' : State ι} (i : ι) {c : Call} {ret : ℤ} : s.stage i = .draining c ret →
      s'.stage = Function.update s.stage i .idle → s'.inflight = s.inflight → s.pending ≤ 0 →
      Turn s [.returned i c ret] s'
  | complete {s' : State ι} {before after : List Req} {r : Req} (status : WcStatus) :
      s'.stage = s.stage → s.inflight = before ++ r :: after → s'.inflight = before ++ after →
      s'.cq = s.cq ++ [(r, status)] → Turn s [] s'

/-- A step of a caller within its call: no call starts, posts or returns, and the hardware
completes nothing. -/
structure Internal (s : State ι) (ev : List (Event ι)) (s' : State ι) : Prop where
  step : Step s ev s'
  posts : ∀ i r, .posted i r ∉ ev
  returns : ∀ i c ret, .returned i c ret ∉ ev
  idle : ∀ i, s.pc i = .idle → s'.pc i = .idle
  completes : s'.cq.length ≤ s.cq.length

/-- The requests that callers are about to post are their own. -/
def OwnRequests (s : State ι) : Prop :=
  ∀ i c r, s.pc i = .raise c r ∨ s.pc i = .post c r → r.call = c

theorem stage_update (pc : Pc) (hpc : s'.pc = Function.update s.pc i pc) :
    s'.stage = Function.update s.stage i pc.stage := by
  funext j
  by_cases hj : j = i
  · subst hj
    simp [State.stage, hpc]
  · simp [State.stage, hpc, hj]

theorem stage_goto (s : State ι) (i : ι) (pc : Pc) :
    (s.goto i pc).stage = Function.update s.stage i pc.stage := stage_update pc rfl

/-- A step of a caller within its stage. -/
theorem stage_same {pc : Pc} (hpc : s'.pc = Function.update s.pc i pc)
    (hstage : pc.stage = (s.pc i).stage) : s'.stage = s.stage := by
  rw [stage_update pc hpc, hstage]
  exact Function.update_eq_self i s.stage

theorem OwnRequests.move (h : OwnRequests s) {pc : Pc} (hpc : s'.pc = Function.update s.pc i pc)
    (hown : ∀ c r, pc = .raise c r ∨ pc = .post c r → r.call = c) : OwnRequests s' := by
  intro j c r hj
  by_cases hji : j = i
  · subst hji
    rw [hpc, Function.update_self] at hj
    exact hown c r hj
  · rw [hpc, Function.update_of_ne hji] at hj
    exact h j c r hj

theorem afterAdd_ne_adding (c : Call) (ret : ℤ) (d : Call) (r : Req) :
    afterAdd c ret ≠ .raise d r ∧ afterAdd c ret ≠ .post d r :=
  afterAdd_of (P := fun pc => pc ≠ .raise d r ∧ pc ≠ .post d r) (by simp) fun _ _ => by simp

theorem OwnRequests.step (h : OwnRequests s) (hs : Step s ev s') : OwnRequests s' := by
  cases hs with
  | call i | pressurePass i | pressureBug i | pressurePoll i | loopPoll i | targetLeave i
  | drainLeave i | lock i | reap i | handle i | handlerDone i | unlock i | alloc i | allocFail i
  | raiseBug i => exact h.move (i := i) rfl (by simp)
  | mapFail i | post i | postFail i =>
    exact h.move (i := i) rfl fun d r hd => by simp [afterAdd_ne_adding] at hd
  | map i dma hpc =>
    refine h.move (i := i) rfl fun d r hd => ?_
    simp only [Pc.raise.injEq, reduceCtorEq, or_false] at hd
    obtain ⟨rfl, rfl⟩ := hd
    rfl
  | @raise i c r hpc hdma =>
    refine h.move (i := i) rfl fun d r' hd => ?_
    simp only [reduceCtorEq, Pc.post.injEq, false_or] at hd
    obtain ⟨rfl, rfl⟩ := hd
    exact h i c r (.inl hpc)
  | complete status hin => exact h

theorem run_ownRequests (h : (system ι).Run tr s) : OwnRequests s :=
  h.invariant (I := fun _ s => OwnRequests s)
    (fun s hs => by
      subst hs
      simp [OwnRequests, State.initial])
    fun _ _ _ _ _ ho hs => ho.step hs

/-- Every step is a turn. -/
theorem Step.turn (hs : Step s ev s') (ho : OwnRequests s) : Turn s ev s' := by
  cases hs with
  | call i c hpc =>
    exact .call i c (by simp [State.stage, hpc, Pc.stage]) (stage_update (.pressure c) rfl) rfl
  | pressurePass i hpc | pressurePoll i hpc | loopPoll i hpc | targetLeave i hpc | lock i hpc
  | reap i hpc | handlerDone i hpc =>
    exact .inside (stage_same rfl (by simp [hpc, Pc.stage, Loop.stage])) rfl (by simp)
  | handle i hpc | alloc i hpc | map i dma hpc =>
    exact .inside (stage_same rfl (by simp [hpc, Pc.stage])) rfl (by simp [Event.Inside])
  | unlock i hpc =>
    exact .inside (stage_same rfl (by simp [hpc, Pc.stage])) rfl (by simp)
  | @pressureBug i c hpc | @allocFail i c hpc | @raiseBug i c r hpc =>
    have hadding : s.stage i = .adding c := by simp [State.stage, hpc, Pc.stage]
    exact .stop i hadding (stage_update (.crashed _) rfl) rfl (by simp [Event.Inside])
  | @mapFail i c id hpc =>
    have hadding : s.stage i = .adding c := by simp [State.stage, hpc, Pc.stage]
    refine .fail i hadding (by decide) (stage_update (afterAdd c _) rfl) rfl ?_ ?_
    · exact ⟨.mapFailed i, by simp, rfl⟩
    · simp [Event.Failure]
  | @postFail i c r ret hpc hret =>
    have hadding : s.stage i = .adding c := by simp [State.stage, hpc, Pc.stage]
    refine .fail i hadding hret (stage_update (afterAdd c ret) rfl) rfl ?_ ?_
    · exact ⟨.postFailed i r ret, by simp, rfl⟩
    · simp [Event.Failure]
  | @drainLeave i c ret hpc hleave =>
    have hdraining : s.stage i = .draining c ret := by simp [State.stage, hpc, Pc.stage, Loop.stage]
    refine .leave i hdraining (stage_update .idle rfl) rfl ?_
    simpa [Loop.KeepsPolling] using hleave
  | raise i hpc hdma =>
    exact .inside (stage_same rfl (by simp [hpc, Pc.stage])) rfl (by simp)
  | @post i c r hpc =>
    have hown : r.call = c := ho i c r (.inr hpc)
    have hafter : (afterAdd c 0).stage = .draining r.call 0 := by
      rw [hown, afterAdd_zero]
      rfl
    refine .post i (by simp [State.stage, hpc, Pc.stage, hown]) ?_ rfl
    rw [← hafter]
    exact stage_update (afterAdd c 0) rfl
  | complete status hin => exact .complete status rfl hin rfl rfl

/-- A call drains the queue with an error only when its own mapping or post has failed. -/
theorem Step.failed_of_draining (hs : Step s ev s') (ho : OwnRequests s) {c : Call} {ret : ℤ}
    (hdrain : s'.stage i = .draining c ret) (hret : ret ≠ 0) :
    s.stage i = .draining c ret ∨ ∃ e ∈ ev, e.FailureOf i := by
  cases hs.turn ho with
  | inside hstage | complete _ hstage =>
    rw [hstage] at hdrain
    exact .inl hdrain
  | call j d _ hstage | stop j _ hstage | leave j _ hstage =>
    by_cases hij : i = j
    · subst hij
      rw [hstage, Function.update_self] at hdrain
      cases hdrain
    · rw [hstage, Function.update_of_ne hij] at hdrain
      exact .inl hdrain
  | fail j _ _ hstage _ hfailed =>
    by_cases hij : i = j
    · subst hij
      exact .inr hfailed
    · rw [hstage, Function.update_of_ne hij] at hdrain
      exact .inl hdrain
  | post j _ hstage =>
    by_cases hij : i = j
    · subst hij
      rw [hstage, Function.update_self] at hdrain
      cases hdrain
      exact absurd rfl hret
    · rw [hstage, Function.update_of_ne hij] at hdrain
      exact .inl hdrain

/-- `sswap_rdma_write` returns nothing but 0: of an error it makes a `BUG`. -/
theorem zero_of_draining_write (h : (system ι).Run tr s) :
    ∀ i c ret, s.stage i = .draining c ret → c.op = .rdmaWrite → ret = 0 := by
  refine h.invariant (I := fun _ s => ∀ i c ret, s.stage i = .draining c ret →
    c.op = .rdmaWrite → ret = 0) (fun s hs i c ret hi => ?_) fun tr s ev s' hr ih hs i c ret hi hop => ?_
  · subst hs
    cases hi
  · cases hs.turn (run_ownRequests hr) with
    | inside hstage | complete _ hstage =>
      rw [hstage] at hi
      exact ih i c ret hi hop
    | call j d _ hstage | stop j _ hstage | leave j _ hstage =>
      by_cases hij : i = j
      · subst hij
        rw [hstage, Function.update_self] at hi
        cases hi
      · rw [hstage, Function.update_of_ne hij] at hi
        exact ih i c ret hi hop
    | @fail _ e j d ret' _ hret hstage =>
      by_cases hij : i = j
      · subst hij
        rw [hstage, Function.update_self, afterAdd] at hi
        cases hd : d.op with
        | rdmaWrite =>
          simp only [hd, if_pos hret] at hi
          cases hi
        | rdmaRead =>
          simp only [hd] at hi
          cases hi
          rw [hd] at hop
          cases hop
      · rw [hstage, Function.update_of_ne hij] at hi
        exact ih i c ret hi hop
    | post j _ hstage =>
      by_cases hij : i = j
      · subst hij
        rw [hstage, Function.update_self] at hi
        cases hi
        rfl
      · rw [hstage, Function.update_of_ne hij] at hi
        exact ih i c ret hi hop

/-- A caller that leaves `drain_queue` leaves nothing in flight, and no post has failed. -/
theorem drained_of_leave [Fintype ι] (h : (system ι).Run tr s) (hzero : s.pending ≤ 0) :
    s.inflight = [] ∧ s.cq = [] ∧ failedPosts tr = 0 := by
  have hcount := run_counted h
  unfold Counted State.unhandled at hcount
  have hin : s.inflight.length = 0 := by omega
  have hcq : s.cq.length = 0 := by omega
  exact ⟨List.length_eq_zero_iff.mp hin, List.length_eq_zero_iff.mp hcq, by omega⟩

end Multiswap.Queue
