import Multiswap.Lib.StateError
import Multiswap.Rdma.Defs

/-!
# How a page transfer can end

Whatever its outcome, the state it starts from and the fuel of its loops, a
transfer stops for no reason outside the backend, and a write that returns from
an offset inside the remote buffer returns `0`.
-/

namespace Multiswap.Rdma

open StateError (Ends)

variable {α : Type} {host : Host} {o : Outcome} {op : WrOpcode}
  {dev idx target completed fuel limit page roffset : ℕ}

/-- What the backend stops with: never an access to `remote_spaces`. -/
def OfBackend (e : Stop) : Prop := ∀ i, e ≠ .fault (.remoteSpaces i)

theorem vmBugOnPage_ends (cond : Bool) :
    Ends OfBackend (fun _ => True) (vmBugOnPage host cond : Exec α Unit) :=
  .ite (fun _ => .throw (by simp [OfBackend])) fun _ => .pure trivial

theorem gctrlAt_ends : Ends OfBackend (fun _ => True) (gctrlAt dev : Exec α Unit) :=
  .ite (fun _ => .pure trivial) fun _ => .throw (by simp [OfBackend])

theorem getReqForPage_ends : Ends OfBackend (fun _ => True) (getReqForPage o : Exec α _) := by
  unfold getReqForPage
  refine .check (fun _ => by simp [OfBackend]) fun _ => .bind (.modify _) fun _ _ => ?_
  split
  · exact .bind (.modify _) fun _ _ => .pure trivial
  · exact .bind (.modify _) fun _ _ => .pure trivial

theorem sswapRdmaPostRdma_ends {dma : ℕ} :
    Ends OfBackend (fun _ => True) (sswapRdmaPostRdma o dev idx dma page roffset op : Exec α _) := by
  unfold sswapRdmaPostRdma
  refine .check (fun _ => by simp [OfBackend]) fun _ => .bind (.modify _) fun _ _ => ?_
  exact .ite (fun _ => .bind (.modify _) fun _ _ => .pure trivial) fun _ => .pure trivial

theorem ibProcessCqDirect_ends (budget : ℕ) :
    Ends OfBackend (fun _ => True) (ibProcessCqDirect dev idx budget : Exec α _) :=
  .bind .get fun _ _ => .bind (.set _) fun _ _ => .pure trivial

theorem pollTarget_ends : Ends OfBackend (fun _ => True)
    (pollTarget dev idx target fuel completed : Exec α _) := by
  induction fuel generalizing completed with
  | zero =>
    exact .bind .get fun _ _ => .check (fun _ => by simp [OfBackend]) fun _ => .pure trivial
  | succ fuel ih =>
    exact .bind .get fun _ _ => .ite (fun _ => .bind (ibProcessCqDirect_ends _) fun _ _ => ih)
      fun _ => .pure trivial

theorem drainQueue_ends : Ends OfBackend (fun _ => True) (drainQueue dev idx fuel : Exec α _) := by
  induction fuel with
  | zero =>
    exact .bind .get fun _ _ => .ite (fun _ => .throw (by simp [OfBackend])) fun _ => .pure trivial
  | succ fuel ih =>
    exact .bind .get fun _ _ => .ite (fun _ => .bind (ibProcessCqDirect_ends _) fun _ _ => ih)
      fun _ => .pure trivial

theorem backPressure_ends :
    Ends OfBackend (fun _ => True) (backPressure dev idx limit target fuel : Exec α _) := by
  induction fuel with
  | zero =>
    exact .bind .get fun _ _ => .ite (fun _ => .throw (by simp [OfBackend])) fun _ => .pure trivial
  | succ fuel ih =>
    exact .bind .get fun _ _ => .ite (fun _ => .check (fun _ => by simp [OfBackend]) fun _ =>
      .bind pollTarget_ends fun _ _ => ih) fun _ => .pure trivial

theorem queueAdd_ends :
    Ends OfBackend (fun _ => True) (queueAdd o dev idx page roffset op : Exec α _) := by
  refine .bind getReqForPage_ends fun r _ => ?_
  cases r with
  | error ret => exact .pure trivial
  | ok dma => exact sswapRdmaPostRdma_ends

/-- A write at an offset inside the remote buffer returns `0` or not at all. -/
theorem sswapRdmaWrite_ends : Ends OfBackend (fun ret => roffset < remoteBufSize → ret = 0)
    (sswapRdmaWrite host fuel o page roffset dev : Exec α _) := by
  refine .ite (fun hge => .pure fun hlt => absurd hlt (not_lt.mpr hge)) fun _ => ?_
  refine .bind .get fun _ _ => .bind (vmBugOnPage_ends _) fun _ _ => .bind gctrlAt_ends fun _ _ => ?_
  refine .bind (.bind backPressure_ends fun _ _ => queueAdd_ends) fun ret _ => ?_
  refine .check (fun _ => by simp [OfBackend]) fun hret => ?_
  exact .bind drainQueue_ends fun _ _ => .pure fun _ => not_not.mp hret

theorem sswapRdmaReadSync_ends : Ends OfBackend (fun _ => True)
    (sswapRdmaReadSync host fuel o page roffset dev : Exec α _) := by
  refine .ite (fun _ => .pure trivial) fun _ => ?_
  refine .bind .get fun _ _ => .bind (vmBugOnPage_ends _) fun _ _ => ?_
  refine .bind .get fun _ _ => .bind (vmBugOnPage_ends _) fun _ _ => ?_
  refine .bind .get fun _ _ => .bind (vmBugOnPage_ends _) fun _ _ => .bind gctrlAt_ends fun _ _ => ?_
  exact .bind (.bind backPressure_ends fun _ _ => queueAdd_ends) fun _ _ =>
    .bind drainQueue_ends fun _ _ => .pure trivial

end Multiswap.Rdma
