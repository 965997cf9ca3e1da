import Multiswap.Queue.Defs

/-!
# What the counter counts

In every reachable state `pending` is the number of accepted requests whose
handler has not yet run, plus the callers between increment and post, plus the
posts that have failed: a failed post does not undo its increment.
-/

namespace Multiswap.Queue

open Rdma (WrOpcode qpMaxSendWr)

variable {ι : Type} {s s' : State ι} {tr ev : List (Event ι)}

/-- `ib_post_send` returned an error. -/
def Event.isPostFailed : Event ι → Bool
  | .postFailed .. => true
  | _ => false

/-- The number of posts that have failed so far. -/
def failedPosts (tr : List (Event ι)) : ℕ := tr.countP Event.isPostFailed

theorem failedPosts_eq_zero : failedPosts tr = 0 ↔ ∀ i r ret, .postFailed i r ret ∉ tr := by
  simp only [failedPosts, List.countP_eq_zero]
  constructor
  · intro h i r ret hmem
    exact h _ hmem rfl
  · intro h e he hfail
    cases e <;> first | exact h _ _ _ he | cases hfail

/-- Both kinds of loops let every caller out. -/
def LoopsLeave (s : State ι) : Prop :=
  ∀ c l, ¬ Loop.KeepsPolling l c s.pending ∧ s.pending < c.limit

theorem loopsLeave_of_zero (h : s.pending = 0) : LoopsLeave s := by
  intro c l
  rw [h]
  refine ⟨?_, ?_⟩
  · cases l <;> simp [Loop.KeepsPolling]
  · obtain ⟨op, page⟩ := c
    cases op <;> simp [Call.limit, qpMaxSendWr]

variable [DecidableEq ι] [Fintype ι]

/-- The counter is the accepted requests that are not handled, the callers
between increment and post, and the failed posts. -/
def Counted (tr : List (Event ι)) (s : State ι) : Prop :=
  s.pending = (s.unhandled + ∑ i, (s.pc i).raised + failedPosts tr : ℕ)

theorem sum_update (f : Pc → ℕ) (pcs : ι → Pc) (i : ι) (pc : Pc) :
    ∑ j, f (Function.update pcs i pc j) + f (pcs i) = ∑ j, f (pcs j) + f pc := by
  rw [← Finset.add_sum_erase _ _ (Finset.mem_univ i), ← Finset.add_sum_erase _ (fun j => f (pcs j))
    (Finset.mem_univ i), Function.update_self]
  have hrest : ∑ j ∈ Finset.univ.erase i, f (Function.update pcs i pc j) =
      ∑ j ∈ Finset.univ.erase i, f (pcs j) :=
    Finset.sum_congr rfl fun j hj => by rw [Function.update_of_ne (Finset.ne_of_mem_erase hj)]
  omega

/-- A step of one caller keeps the count if the parts that it changes add up. -/
theorem Counted.move (h : Counted tr s) (i : ι) (pc : Pc) (hpc : s'.pc = Function.update s.pc i pc)
    (hparts : s'.pending + (s.inflight.length + s.cq.length + (s.pc i).handling + (s.pc i).raised : ℕ) =
      s.pending + (s'.inflight.length + s'.cq.length + pc.handling + pc.raised + failedPosts ev : ℕ)) :
    Counted (tr ++ ev) s' := by
  have hhandling := sum_update Pc.handling s.pc i pc
  have hraised := sum_update Pc.raised s.pc i pc
  have hfailed : failedPosts (tr ++ ev) = failedPosts tr + failedPosts ev := List.countP_append
  unfold Counted State.unhandled at h ⊢
  rw [hpc, hfailed]
  omega

theorem afterAdd_parts (c : Call) (ret : ℤ) :
    (afterAdd c ret).handling = 0 ∧ (afterAdd c ret).raised = 0 :=
  afterAdd_of (P := fun pc => pc.handling = 0 ∧ pc.raised = 0) ⟨rfl, rfl⟩ fun _ _ => ⟨rfl, rfl⟩

/-- Each handler lowers the counter once. -/
theorem count_done (op : WrOpcode) : op.done.count .decPending = 1 := by cases op <;> decide

/-- A step of one caller that touches neither the counter nor the requests. -/
theorem Counted.quiet (h : Counted tr s) (i : ι) {pc : Pc}
    (hfrom : (s.pc i).handling = 0 ∧ (s.pc i).raised = 0) (hto : pc.handling = 0 ∧ pc.raised = 0)
    (hpc : s'.pc = Function.update s.pc i pc) (hpending : s'.pending = s.pending)
    (hinflight : s'.inflight = s.inflight) (hcq : s'.cq = s.cq) (hev : failedPosts ev = 0) :
    Counted (tr ++ ev) s' := by
  apply h.move i pc hpc
  rw [hpending, hinflight, hcq, hev, hfrom.1, hfrom.2, hto.1, hto.2]

theorem Counted.step (h : Counted tr s) (hs : Step s ev s') : Counted (tr ++ ev) s' := by
  cases hs with
  | call i c hpc =>
    exact h.quiet i (by simp [hpc, Pc.handling, Pc.raised]) ⟨rfl, rfl⟩ rfl rfl rfl rfl rfl
  | pressurePass i hpc _ | pressureBug i hpc _ _ | pressurePoll i hpc _ _ | loopPoll i hpc _
  | targetLeave i hpc _ | drainLeave i hpc _ | lock i hpc _ | unlock i hpc | alloc i hpc
  | allocFail i hpc | map i dma hpc | raiseBug i hpc _ =>
    exact h.quiet i (by simp [hpc, Pc.handling, Pc.raised]) ⟨rfl, rfl⟩ rfl rfl rfl rfl rfl
  | mapFail i hpc =>
    exact h.quiet i (by simp [hpc, Pc.handling, Pc.raised]) (afterAdd_parts _ _) rfl rfl rfl rfl rfl
  | handlerDone i hpc =>
    exact h.quiet i (by simp [hpc, Pc.handling, Pc.raised]) ⟨rfl, rfl⟩ rfl rfl rfl rfl rfl
  | @reap i c l taken r status rest hpc _ hcq =>
    have hdone : (Pc.handle c l (taken + 1) r r.call.op.done).handling = 1 := count_done r.call.op
    apply h.move i _ rfl
    rw [hdone, hpc, hcq]
    simp [State.goto, Pc.handling, Pc.raised, failedPosts]
    omega
  | @handle i c l taken r k left hpc =>
    apply h.move i _ rfl
    rw [hpc]
    cases k <;> simp [State.goto, Pc.handling, Pc.raised, failedPosts, Event.isPostFailed, lowered]
    omega
  | raise i hpc hdma =>
    apply h.move i _ rfl
    rw [hpc]
    simp [State.goto, Pc.handling, Pc.raised, failedPosts]
    omega
  | @post i c r hpc =>
    obtain ⟨hhandling, hraised⟩ := afterAdd_parts c 0
    apply h.move i _ rfl
    rw [hpc, hhandling, hraised]
    simp [State.goto, Pc.handling, Pc.raised, failedPosts, Event.isPostFailed]
    omega
  | @postFail i c r ret hpc hret =>
    obtain ⟨hhandling, hraised⟩ := afterAdd_parts c ret
    apply h.move i _ rfl
    rw [hpc, hhandling, hraised]
    simp [State.goto, Pc.handling, Pc.raised, failedPosts, Event.isPostFailed]
  | @complete before after r status hin =>
    have hlen : s.inflight.length = before.length + after.length + 1 := by
      rw [hin]
      simp [Nat.add_assoc]
    unfold Counted State.unhandled at h ⊢
    simp [failedPosts, hlen] at h ⊢
    omega

theorem run_counted (h : (system ι).Run tr s) : Counted tr s :=
  h.invariant (fun s hs => by
    subst hs
    simp [Counted, State.unhandled, State.initial, Pc.handling, Pc.raised, failedPosts])
    fun _ _ _ _ _ hc hs => hc.step hs

/-! ## Who waits for the counter -/

/-- `1` from the increment of a caller until it has left `drain_queue`, and `stopped` for a
caller that the kernel has stopped. -/
def Pc.waiting (stopped : ℕ) : Pc → ℕ
  | .crashed _ => stopped
  | .post .. => 1
  | .loop _ (.drain _) | .lock _ (.drain _) | .poll _ (.drain _) _ => 1
  | .handle _ (.drain _) _ _ _ => 1
  | _ => 0

/-- What the counter counts has a caller that waits for it, a caller that was stopped, or a
post that has failed. Of the last two kinds at least one is counted. -/
def Awaited (stopped lost : ℕ) (tr : List (Event ι)) (s : State ι) : Prop :=
  s.pending ≤ (∑ i, (s.pc i).waiting stopped + lost * failedPosts tr : ℕ)

section Awaited

variable {stopped lost : ℕ}

theorem lowered_le (pending : ℤ) (k : Rdma.HandlerStep) : lowered pending k ≤ pending := by
  cases k <;> simp only [lowered] <;> omega

/-- A step of one caller that raises the counter only if the caller then waits for it, and
after which a caller that no longer waits has seen the counter at zero. -/
theorem Awaited.move (h : Awaited stopped lost tr s) (i : ι) {pc : Pc}
    (hpc : s'.pc = Function.update s.pc i pc)
    (hparts : s'.pending + (s.pc i).waiting stopped ≤
      s.pending + (pc.waiting stopped + lost * failedPosts ev : ℕ) ∨ s'.pending ≤ 0) :
    Awaited stopped lost (tr ++ ev) s' := by
  have hsum := sum_update (Pc.waiting stopped) s.pc i pc
  have hfailed : lost * failedPosts (tr ++ ev) = lost * failedPosts tr + lost * failedPosts ev := by
    rw [← Nat.mul_add]
    exact congrArg (lost * ·) List.countP_append
  unfold Awaited at h ⊢
  rw [hpc, hfailed]
  omega

/-- A step that raises the counter no more than the number of callers that wait. -/
theorem Awaited.keeps (h : Awaited stopped lost tr s) (i : ι) {pc : Pc}
    (hpc : s'.pc = Function.update s.pc i pc)
    (hparts : s'.pending + (s.pc i).waiting stopped ≤ s.pending + pc.waiting stopped) :
    Awaited stopped lost (tr ++ ev) s' := h.move i hpc (.inl (by omega))

theorem Awaited.step (h : Awaited stopped lost tr s) (hcovers : 1 ≤ stopped + lost)
    (hs : Step s ev s') : Awaited stopped lost (tr ++ ev) s' := by
  cases hs with
  | call i c hpc | pressurePass i hpc _ | pressureBug i hpc _ _ | pressurePoll i hpc _ _
  | targetLeave i hpc _ | alloc i hpc | allocFail i hpc | map i dma hpc | raiseBug i hpc _ =>
    exact h.keeps i rfl (by simp [State.goto, hpc, Pc.waiting])
  | @mapFail i c id hpc =>
    have hnone : (Pc.map c id).waiting stopped = 0 := rfl
    refine h.keeps i rfl ?_
    rw [hpc, hnone]
    simp only [State.goto]
    omega
  | @loopPoll i c l hpc _ =>
    exact h.keeps i rfl (by cases l <;> simp [State.goto, hpc, Pc.waiting])
  | drainLeave i hpc hleave =>
    have hzero : s.pending ≤ 0 := by simpa [Loop.KeepsPolling] using hleave
    exact h.move i rfl (.inr hzero)
  | @lock i c l hpc _ | @reap i c l taken r status rest hpc _ _ | @handlerDone i c l taken r hpc
  | @unlock i c l taken hpc =>
    exact h.keeps i rfl (by cases l <;> simp [State.goto, hpc, Pc.waiting, Loop.polled])
  | @handle i c l taken r k left hpc =>
    have hlow := lowered_le s.pending k
    exact h.keeps i rfl (by cases l <;> simp [hpc, Pc.waiting, hlow])
  | raise i hpc _ => exact h.keeps i rfl (by simp [hpc, Pc.waiting])
  | @post i c r hpc =>
    refine h.keeps i rfl ?_
    rw [afterAdd_zero, hpc]
    simp [State.goto, Pc.waiting]
  | @postFail i c r ret hpc _ =>
    -- a write stops, and a read drains the queue for ever
    have hnext : 1 ≤ (afterAdd c ret).waiting stopped + lost :=
      afterAdd_of (P := fun pc => 1 ≤ pc.waiting stopped + lost) (Nat.le_add_right 1 lost)
        fun _ _ => hcovers
    have hone : (Pc.post c r).waiting stopped = 1 := rfl
    have hfailed : failedPosts [Event.postFailed i r ret] = 1 := rfl
    refine h.move i rfl (.inl ?_)
    rw [hpc, hone, hfailed, Nat.mul_one]
    simp only [State.goto]
    omega
  | complete status hin => simpa [Awaited, failedPosts] using h

theorem run_awaited (hcovers : 1 ≤ stopped + lost) (h : (system ι).Run tr s) :
    Awaited stopped lost tr s :=
  h.invariant (I := Awaited stopped lost) (fun s hs => by
    subst hs
    exact Int.natCast_nonneg _)
    fun _ _ _ _ _ ha hs => ha.step hcovers hs

end Awaited

/-- The counter is the number of accepted requests whose handler has not yet run,
and the loops let every caller out once there are none. -/
def Exact (s : State ι) : Prop := s.pending = s.unhandled ∧ (s.unhandled = 0 → LoopsLeave s)

/-- At points where no caller is between its increment and its post, the counter
is exact if and only if no post has failed so far. -/
theorem counter_exact_iff (h : (system ι).Run tr s) (hquiet : ∀ i c r, s.pc i ≠ .post c r) :
    Exact s ↔ ∀ i r ret, Event.postFailed i r ret ∉ tr := by
  have hcount := run_counted h
  have hraised : ∑ i, (s.pc i).raised = 0 := by
    apply Finset.sum_eq_zero
    intro i _
    cases hpc : s.pc i <;> first | rfl | exact absurd hpc (hquiet i _ _)
  rw [Counted, hraised, Nat.add_zero] at hcount
  rw [← failedPosts_eq_zero]
  constructor
  · rintro ⟨hexact, _⟩
    omega
  · intro hzero
    have hexact : s.pending = s.unhandled := by omega
    exact ⟨hexact, fun hu => loopsLeave_of_zero (by omega)⟩

/-- The read of page 5 that the next two runs make, and its request. -/
def readCall : Call := ⟨.rdmaRead, 5⟩

def readReq : Req := ⟨0, readCall, 4096⟩

/-- The caller is about to post the request. -/
def posting : State Unit where
  pending := 1
  cqLock := none
  inflight := []
  cq := []
  nextReq := 1
  pc _ := .post readCall readReq

theorem posting_run : (system Unit).Run [.allocated () 0, .mapped () readReq] posting := by
  have hcall : (system Unit).Run [] _ := .step (.start rfl) (.call () readCall rfl)
  have hpass := hcall.step (.pressurePass () rfl (by decide))
  have halloc := hpass.step (.alloc () rfl)
  have hmap := halloc.step (.map () 4096 rfl)
  exact hmap.step (.raise () rfl (by decide))

/-- The post of the request is accepted. -/
theorem counter_exact_posted : ∃ s, (system Unit).Run
    [.allocated () 0, .mapped () readReq, .posted () readReq] s ∧ s.pending = 1 ∧ Exact s := by
  have hrun := posting_run.step (.post () rfl)
  refine ⟨_, hrun, rfl, (counter_exact_iff hrun fun i c r => ?_).mpr ?_⟩
  · simp [State.goto, afterAdd, readCall]
  · simp

/-- The post of the request fails: the counter is one too high for good. -/
theorem counter_exact_counterexample :
    ¬ ∀ (tr : List (Event Unit)) (s : State Unit), (system Unit).Run tr s →
      (∀ i c r, s.pc i ≠ .post c r) → Exact s := by
  intro h
  have hrun := posting_run.step (.postFail () (-12) rfl (by decide))
  have hexact := (h _ _ hrun fun i c r => by simp [State.goto, afterAdd, readCall]).1
  simp [State.goto, posting, State.unhandled, afterAdd, readCall, Pc.handling] at hexact

end Multiswap.Queue
