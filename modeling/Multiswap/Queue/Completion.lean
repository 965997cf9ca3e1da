import Mathlib.Algebra.Order.BigOperators.Group.Finset
import Multiswap.Queue.Counter

/-!
# Synchronous completion

A caller waits for the counter, not for its own request. Since the counter is
raised before the post and lowered by the handler after it has released the page,
a caller that finds it at zero finds every posted request handled, its own
included, whoever reaped it.
-/

namespace Multiswap.Queue

open Rdma (WrOpcode HandlerStep WcStatus)

variable {ι : Type} {s s' : State ι} {tr ev : List (Event ι)} {r : Req}

/-- Where a request that was accepted by `ib_post_send` is. -/
inductive Accounted (tr : List (Event ι)) (s : State ι) (r : Req) : Prop
  | inflight : r ∈ s.inflight → Accounted tr s r
  | completed {status : WcStatus} : (r, status) ∈ s.cq → Accounted tr s r
  | handling {j : ι} {c : Call} {l : Loop} {taken : ℕ} {before left : List HandlerStep} :
      s.pc j = .handle c l taken r left → before ++ left = r.call.op.done →
      (∀ k ∈ before, .handled r k ∈ tr) → Accounted tr s r
  | handled : (∀ k ∈ r.call.op.done, .handled r k ∈ tr) → Accounted tr s r

variable [DecidableEq ι]

/-- A step of the caller `i` leaves a request where it was, unless the step is
about the request. -/
theorem Accounted.follow (h : Accounted tr s r) (i : ι) {pc : Pc}
    (hpc : s'.pc = Function.update s.pc i pc)
    (hin : r ∈ s.inflight → Accounted (tr ++ ev) s' r)
    (hcq : ∀ status, (r, status) ∈ s.cq → Accounted (tr ++ ev) s' r)
    (hown : ∀ c l taken before left, s.pc i = .handle c l taken r left →
      before ++ left = r.call.op.done → (∀ k ∈ before, .handled r k ∈ tr) →
      Accounted (tr ++ ev) s' r) : Accounted (tr ++ ev) s' r := by
  cases h with
  | inflight h => exact hin h
  | completed h => exact hcq _ h
  | @handling j c l taken before left hj hdone hbefore =>
    by_cases hji : j = i
    · subst hji
      exact hown c l taken before left hj hdone hbefore
    · have hj' : s'.pc j = .handle c l taken r left := by rw [hpc, Function.update_of_ne hji, hj]
      exact .handling hj' hdone fun k hk => List.mem_append_left _ (hbefore k hk)
  | handled h => exact .handled fun k hk => List.mem_append_left _ (h k hk)

/-- A step of a caller that is in no handler. -/
theorem Accounted.move (h : Accounted tr s r) (i : ι) {pc : Pc}
    (hfrom : ∀ c l taken left, s.pc i ≠ .handle c l taken r left)
    (hpc : s'.pc = Function.update s.pc i pc) (hin : ∀ r ∈ s.inflight, r ∈ s'.inflight)
    (hcq : s'.cq = s.cq) : Accounted (tr ++ ev) s' r :=
  h.follow i hpc (fun h => .inflight (hin r h)) (fun _ h => .completed (hcq ▸ h))
    fun _ _ _ _ _ hi => absurd hi (hfrom _ _ _ _)

/-- No step loses track of a request. -/
theorem Accounted.step (h : Accounted tr s r) (hs : Step s ev s') : Accounted (tr ++ ev) s' r := by
  cases hs with
  | call i _ hpc | pressurePass i hpc _ | pressureBug i hpc _ _ | pressurePoll i hpc _ _
  | loopPoll i hpc _ | targetLeave i hpc _ | drainLeave i hpc _ | lock i hpc _ | unlock i hpc
  | alloc i hpc | allocFail i hpc | map i _ hpc | mapFail i hpc | raiseBug i hpc _ | raise i hpc _
  | postFail i _ hpc _ =>
    exact h.move i (by simp [hpc]) rfl (fun _ => id) rfl
  | post i hpc =>
    exact h.move i (by simp [hpc]) rfl (fun _ => List.mem_append_left _) rfl
  | @reap i c l taken r₀ status rest hpc _ hcq =>
    refine h.follow i rfl (fun h => .inflight h) (fun st hmem => ?_) fun _ _ _ _ _ hi => ?_
    · rw [hcq] at hmem
      rcases List.mem_cons.mp hmem with heq | hmem
      · obtain ⟨rfl, rfl⟩ := Prod.mk.inj heq
        exact .handling (j := i) (Function.update_self _ _ _) (List.nil_append _) (by simp)
      · exact .completed hmem
    · rw [hpc] at hi
      cases hi
  | @handle i c l taken r₀ k left hpc =>
    refine h.follow i rfl (fun h => .inflight h) (fun _ h => .completed h)
      fun c' l' taken' before left' hi hdone hbefore => ?_
    rw [hpc] at hi
    simp only [Pc.handle.injEq] at hi
    obtain ⟨rfl, rfl, rfl, rfl, rfl⟩ := hi
    -- the kernel call that was next is now one of those made
    have hdone' : (before ++ [k]) ++ left = r₀.call.op.done := by
      rw [List.append_assoc]
      exact hdone
    refine .handling (j := i) (Function.update_self _ _ _) hdone' fun k' hk' => ?_
    rcases List.mem_append.mp hk' with hk' | hk'
    · exact List.mem_append_left _ (hbefore k' hk')
    · rw [List.mem_singleton.mp hk']
      exact List.mem_append_right _ (List.mem_singleton_self _)
  | @handlerDone i c l taken r₀ hpc =>
    refine h.follow i rfl (fun h => .inflight h) (fun _ h => .completed h)
      fun c' l' taken' before left hi hdone hbefore => ?_
    rw [hpc] at hi
    simp only [Pc.handle.injEq] at hi
    obtain ⟨rfl, rfl, rfl, rfl, rfl⟩ := hi
    rw [List.append_nil] at hdone
    exact .handled fun k hk => List.mem_append_left _ (hbefore k (hdone ▸ hk))
  | @complete before after r₀ status hin =>
    cases h with
    | inflight h =>
      rw [hin] at h
      rcases List.mem_append.mp h with h | h
      · exact .inflight (List.mem_append_left _ h)
      · rcases List.mem_cons.mp h with rfl | h
        · exact .completed (List.mem_append_right _ (List.mem_singleton_self _))
        · exact .inflight (List.mem_append_right _ h)
    | completed h => exact .completed (List.mem_append_left _ h)
    | handling hj hdone hbefore =>
      exact .handling hj hdone fun k hk => List.mem_append_left _ (hbefore k hk)
    | handled h => exact .handled fun k hk => List.mem_append_left _ (h k hk)

/-- A post puts its request on the queue. -/
theorem Step.posted_mem {i : ι} (hs : Step s ev s') (h : .posted i r ∈ ev) : r ∈ s'.inflight := by
  cases hs with
  | post j hpc =>
    simp only [List.mem_singleton, Event.posted.injEq] at h
    obtain ⟨rfl, rfl⟩ := h
    exact List.mem_append_right _ (List.mem_singleton_self _)
  | _ => simp at h

/-- Every accepted request is accounted for. -/
theorem posted_accounted (h : (system ι).Run tr s) :
    ∀ i r, Event.posted i r ∈ tr → Accounted tr s r :=
  h.invariant (I := fun tr s => ∀ i r, Event.posted i r ∈ tr → Accounted tr s r)
    (fun _ _ i r hmem => by simp at hmem) fun tr s ev s' _ hacc hs i r hmem => by
      rcases List.mem_append.mp hmem with hmem | hmem
      · exact (hacc i r hmem).step hs
      · exact .inflight (hs.posted_mem hmem)

/-- In both handlers only the last kernel call comes after the one that lowers the counter. -/
theorem mem_take_of_lowered (op : WrOpcode) : ∀ n < 7, (op.done.drop n).count .decPending = 0 →
    ∀ k ∈ op.done, k ≠ .freeReq → k ∈ op.done.take n := by
  cases op <;> decide

/-- A handler that has lowered the counter has made all its kernel calls but the last. -/
theorem mem_before_of_lowered {op : WrOpcode} {before left : List HandlerStep}
    (hdone : before ++ left = op.done) (hleft : left.count .decPending = 0) {k : HandlerStep}
    (hk : k ∈ op.done) (hlast : k ≠ .freeReq) : k ∈ before := by
  have hlen : before.length < 7 := by
    have hle := congrArg List.length hdone
    rw [List.length_append] at hle
    have : op.done.length < 7 := by cases op <;> decide
    omega
  have hdrop : op.done.drop before.length = left := by rw [← hdone, List.drop_left]
  have htake : op.done.take before.length = before := by rw [← hdone, List.take_left]
  rw [← htake]
  exact mem_take_of_lowered op _ hlen (hdrop ▸ hleft) k hk hlast

/-- A caller that finds the counter at zero finds every accepted request handled. -/
theorem handled_of_drained [Fintype ι] (h : (system ι).Run tr s) (hzero : ¬ s.pending > 0) {i : ι}
    (hposted : .posted i r ∈ tr) {k : HandlerStep} (hk : k ∈ r.call.op.done) (hlast : k ≠ .freeReq) :
    .handled r k ∈ tr := by
  have hcount := run_counted h
  unfold Counted State.unhandled at hcount
  cases posted_accounted h i r hposted with
  | inflight hmem =>
    have := List.length_pos_of_mem hmem
    omega
  | completed hmem =>
    have := List.length_pos_of_mem hmem
    omega
  | @handling j c l taken before left hj hdone hbefore =>
    have hle : (s.pc j).handling ≤ ∑ i, (s.pc i).handling :=
      Finset.single_le_sum (f := fun i => (s.pc i).handling) (fun _ _ => Nat.zero_le _)
        (Finset.mem_univ j)
    rw [hj] at hle
    have hleft : left.count .decPending = 0 := by
      change left.count .decPending ≤ _ at hle
      omega
    exact hbefore k (mem_before_of_lowered hdone hleft hk hlast)
  | handled hall => exact hall k hk

/-- When a call returns, the handlers of all requests that its caller has posted
have run: their pages are unmapped and, for reads, marked up to date and unlocked. -/
theorem returned_after_handler [Fintype ι] (h : (system ι).Run tr s) {pre post : List (Event ι)}
    {i : ι} {c : Call} {ret : ℤ} (ht : tr = pre ++ .returned i c ret :: post)
    (hposted : .posted i r ∈ pre) :
    .handled r .dmaUnmap ∈ pre ∧ .handled r .decPending ∈ pre ∧
      (r.call.op = .rdmaRead → .handled r .setPageUptodate ∈ pre ∧ .handled r .unlockPage ∈ pre) := by
  obtain ⟨tr₀, ev, s₀, s₁, k, hr, hs, hk, hpre⟩ := h.split_event ht
  cases hs with
  | @drainLeave j c' ret' hpc hleave =>
    have hk0 : k = 0 := by
      have := (List.getElem?_eq_some_iff.mp hk).1
      simpa using this
    rw [hk0, List.take_zero, List.append_nil] at hpre
    subst hpre
    have hdone : ∀ k ∈ r.call.op.done, k ≠ .freeReq → Event.handled r k ∈ pre :=
      fun k => handled_of_drained hr hleave hposted
    cases hop : r.call.op <;> rw [hop] at hdone
    · exact ⟨hdone _ (by decide) (by decide), hdone _ (by decide) (by decide), fun h => by cases h⟩
    · exact ⟨hdone _ (by decide) (by decide), hdone _ (by decide) (by decide), fun _ =>
        ⟨hdone _ (by decide) (by decide), hdone _ (by decide) (by decide)⟩⟩
  | _ =>
    have hmem := List.mem_of_getElem? hk
    simp at hmem

/-- The state of a queue with two callers. -/
def sharing (pending : ℤ) (cqLock : Option Bool) (inflight : List Req) (cq : List (Req × WcStatus))
    (nextReq : ℕ) (first second : Pc) : State Bool :=
  ⟨pending, cqLock, inflight, cq, nextReq, fun i => cond i second first⟩

theorem Run.sharing {tr : List (Event Bool)} {s : State Bool} (h : (system Bool).Run tr s) :
    (system Bool).Run tr
      (sharing s.pending s.cqLock s.inflight s.cq s.nextReq (s.pc false) (s.pc true)) := by
  have hpc : (fun i => cond i (s.pc true) (s.pc false)) = s.pc := by
    funext i
    cases i <;> rfl
  rwa [Queue.sharing, hpc]

/-- The reads of the two callers: of page 5 and of page 6. -/
def sharedReq (i : Bool) : Req := ⟨cond i 1 0, ⟨.rdmaRead, cond i 6 5⟩, 4096⟩

/-- What the completion handler of a read shows. -/
def readHandled (r : Req) : List (Event Bool) :=
  [.handled r .dmaSync, .handled r .dmaUnmap, .handled r .setPageUptodate, .handled r .unlockPage,
    .handled r .decPending, .handled r .freeReq]

/-- What the two reads show before the first returns. -/
def sharedTrace : List (Event Bool) :=
  [.allocated false 0, .mapped false (sharedReq false), .posted false (sharedReq false),
    .allocated true 1, .mapped true (sharedReq true), .posted true (sharedReq true)] ++
    readHandled (sharedReq false) ++ readHandled (sharedReq true)

/-- Where a caller waits for the counter. -/
def sharedPc (i : Bool) : Pc := .loop (sharedReq i).call (.drain 0)

/-- Both reads are posted. -/
theorem shared_posted : (system Bool).Run (sharedTrace.take 6)
    (sharing 2 none [sharedReq false, sharedReq true] [] 2 (sharedPc false) (sharedPc true)) := by
  have hcall : (system Bool).Run [] _ := .step (.start rfl) (.call false (sharedReq false).call rfl)
  have halloc := (hcall.step (.pressurePass false rfl (by decide))).step (.alloc false rfl)
  have hraise := (halloc.step (.map false 4096 rfl)).step (.raise false rfl (by decide))
  have hfirst : (system Bool).Run _ (sharing 1 none [sharedReq false] [] 1 (sharedPc false) .idle) :=
    Run.sharing (hraise.step (.post false rfl))
  have hcall' := hfirst.step (.call true (sharedReq true).call rfl)
  have halloc' := (hcall'.step (.pressurePass true rfl (by decide))).step (.alloc true rfl)
  have hraise' := (halloc'.step (.map true 4096 rfl)).step (.raise true rfl (by decide))
  exact Run.sharing (hraise'.step (.post true rfl))

/-- The second caller reaps a read in its poll and runs the handler. -/
theorem shared_reap {tr : List (Event Bool)} {pending : ℤ} {nextReq : ℕ} {a : Pc} {c : Call}
    {taken page id dma : ℕ} {rest : List (Req × WcStatus)} (htaken : taken < 16)
    (h : (system Bool).Run tr (sharing pending (some true) []
      ((⟨id, ⟨.rdmaRead, page⟩, dma⟩, .success) :: rest) nextReq a (.poll c (.drain 0) taken))) :
    (system Bool).Run (tr ++ readHandled ⟨id, ⟨.rdmaRead, page⟩, dma⟩)
      (sharing (pending - 1) (some true) [] rest nextReq a (.poll c (.drain 0) (taken + 1))) := by
  have hreap := Run.sharing (h.step (.reap true rfl htaken rfl))
  have hunmap := Run.sharing ((hreap.step (.handle true rfl)).step (.handle true rfl))
  have hunlock := Run.sharing ((hunmap.step (.handle true rfl)).step (.handle true rfl))
  have hfree := Run.sharing ((hunlock.step (.handle true rfl)).step (.handle true rfl))
  have hdone : (system Bool).Run _ (sharing (pending - 1) (some true) [] rest nextReq a
      (.poll c (.drain 0) (taken + 1))) := Run.sharing (hfree.step (.handlerDone true rfl))
  simpa [readHandled] using hdone

/-- The second read reaps both completions in one poll, and the first read returns without
having polled at all. -/
theorem sharedTrace_run : ∃ s,
    (system Bool).Run (sharedTrace ++ [.returned false (sharedReq false).call 0]) s := by
  have hcomplete := (shared_posted.step (.complete .success (List.nil_append _).symm)).step
    (.complete .success (List.nil_append _).symm)
  have hlock := (hcomplete.step (.loopPoll true rfl (by decide))).step (.lock true rfl rfl)
  have hreaped := shared_reap (by decide) (shared_reap (by decide) (Run.sharing hlock))
  have hunlock := Run.sharing (hreaped.step (.unlock true rfl))
  exact ⟨_, hunlock.step (.drainLeave false rfl (by decide))⟩

theorem returned_after_handler_shared : Event.handled (sharedReq false) .unlockPage ∈ sharedTrace := by
  obtain ⟨s, hrun⟩ := sharedTrace_run
  exact ((returned_after_handler hrun rfl
    (by decide : Event.posted false (sharedReq false) ∈ sharedTrace)).2.2 rfl).2

end Multiswap.Queue
