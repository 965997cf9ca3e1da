import Multiswap.Rdma.Status

/-!
# A transfer on idle queues

When nothing is in flight, a call of `sswap_rdma_write` or `sswap_rdma_read_sync`
that returns leaves the queues idle again. It has moved the page if the completion
had the status `IB_WC_SUCCESS`, and reports no other status.
-/

namespace Multiswap.Rdma

open StateError

variable {α : Type} {fuel dev idx page roffset : ℕ} {o : Outcome} {op : WrOpcode}
  {c : Client α}

/-- No queue has a request in flight. -/
def Idle (c : Client α) : Prop := ∀ dev idx, c.queues dev idx = ⟨0, []⟩

@[simp] theorem setQueue_setQueue (c : Client α) (dev idx : ℕ) (q q' : RdmaQueue) :
    (c.setQueue dev idx q).setQueue dev idx q' = c.setQueue dev idx q' := by
  simp [Client.setQueue]

/-- A poll of a single request. -/
theorem polled_single (w : Posted) (c : Client α) :
    (c.setQueue dev idx ⟨1, [w]⟩).polled dev idx 16 =
      if w.delay = 0 then complete dev idx (c.setQueue dev idx ⟨1, []⟩) w
      else c.setQueue dev idx ⟨1, [{ w with delay := w.delay - 1 }]⟩ := by
  by_cases hd : w.delay = 0 <;> simp [Client.polled, reap, hd]

/-- What becomes of a request does not depend on the polls it takes. -/
theorem complete_delay (w : Posted) (d : ℕ) :
    complete dev idx c { w with delay := d } = complete dev idx c w := by
  cases w
  rfl

/-- `drain_queue` on a single request polls until it is completed. -/
theorem drainQueue_single {w : Posted} (hfuel : w.delay < fuel) :
    drainQueue dev idx fuel (c.setQueue dev idx ⟨1, [w]⟩) =
      .ok () (complete dev idx (c.setQueue dev idx ⟨1, []⟩) w) := by
  induction fuel generalizing w with
  | zero => omega
  | succ fuel ih =>
    have hloop : drainQueue dev idx (fuel + 1) (c.setQueue dev idx ⟨1, [w]⟩) =
        drainQueue dev idx fuel ((c.setQueue dev idx ⟨1, [w]⟩).polled dev idx 16) := by
      simp [drainQueue, ibProcessCqDirect_eq]
    rw [hloop, polled_single]
    by_cases hd : w.delay = 0
    · have hdone : ((complete dev idx (c.setQueue dev idx ⟨1, []⟩) w).queues dev idx).pending = 0 := by
        rw [complete_queue, setQueue_queues]
        rfl
      rw [if_pos hd]
      cases fuel <;> simp [drainQueue, hdone]
    · have hless : ({ w with delay := w.delay - 1 } : Posted).delay < fuel := by
        show w.delay - 1 < fuel
        omega
      rw [if_neg hd, ih hless, complete_delay]

theorem setQueue_other (c : Client α) (q : RdmaQueue) {d i : ℕ} (h : ¬ (d = dev ∧ i = idx)) :
    (c.setQueue dev idx q).queues d i = c.queues d i := by
  by_cases hd : d = dev
  · subst hd
    simp [Client.setQueue, show i ≠ idx from fun hi => h ⟨rfl, hi⟩]
  · simp [Client.setQueue, hd]

/-- A completion changes no other queue. -/
theorem complete_other (w : Posted) {d i : ℕ} (h : ¬ (d = dev ∧ i = idx)) :
    (complete dev idx c w).queues d i = c.queues d i := by
  obtain ⟨op, page, roffset, status, delay⟩ := w
  cases op <;> cases status <;>
    simp [complete, WrOpcode.done, sswapRdmaWriteDone, sswapRdmaReadDone, handlerStep, moveData,
      Client.setPage, setQueue_other _ _ h]

/-! ## Whole calls -/

/-- The client after a request was added to an idle queue, completed and drained. -/
def Client.served (c : Client α) (dev idx : ℕ) (w : Posted) : Client α :=
  complete dev idx
    (Client.setQueue { c with reqs := c.reqs + 1, mappings := c.mappings + 1 } dev idx ⟨1, []⟩) w

theorem served_idle (hidle : Idle c) (dev idx : ℕ) (w : Posted) : Idle (c.served dev idx w) := by
  intro d i
  by_cases hq : d = dev ∧ i = idx
  · obtain ⟨rfl, rfl⟩ := hq
    rw [Client.served, complete_queue, setQueue_queues]
    rfl
  · rw [Client.served, complete_other w hq, setQueue_other _ _ hq]
    exact hidle d i

theorem served_write_remote (c : Client α) (dev idx page roffset delay : ℕ) (status : WcStatus) :
    (c.served dev idx ⟨.rdmaWrite, page, roffset, status, delay⟩).remote =
      if status = .success then Function.update c.remote dev
        (Function.update (c.remote dev) roffset (c.pages page).contents)
      else c.remote := by
  cases status <;> rfl

theorem served_read_remote (c : Client α) (dev idx page roffset delay : ℕ) (status : WcStatus) :
    (c.served dev idx ⟨.rdmaRead, page, roffset, status, delay⟩).remote = c.remote := by
  cases status <;> rfl

theorem served_read_contents (c : Client α) (dev idx page roffset delay : ℕ) (status : WcStatus) :
    ((c.served dev idx ⟨.rdmaRead, page, roffset, status, delay⟩).pages page).contents =
      if status = .success then c.remote dev roffset else (c.pages page).contents := by
  cases status <;> simp [Client.served, complete, WrOpcode.done, sswapRdmaReadDone, handlerStep,
    moveData, Client.setPage, Client.setQueue]

theorem backPressure_idle (hidle : Idle c) {limit target : ℕ} (hlimit : 0 < limit) (fuel : ℕ) :
    backPressure dev idx limit target fuel c = .ok () c := by
  have hp : ¬ (c.queues dev idx).pending ≥ limit := by
    rw [hidle dev idx]
    show ¬ (0 : ℤ) ≥ limit
    omega
  cases fuel <;> simp [backPressure, hp]

/-- Adding a request to an idle queue and draining it. -/
theorem queueAdd_drained (hidle : Idle c) (ho : o.Completes) (hfuel : o.delay < fuel)
    (dev idx page roffset : ℕ) (op : WrOpcode) :
    ∃ c₁, queueAdd o dev idx page roffset op c = .ok 0 c₁ ∧ drainQueue dev idx fuel c₁ =
      .ok () (c.served dev idx ⟨op, page, roffset, o.status, o.delay⟩) := by
  refine ⟨_, queueAdd_completes dev idx page roffset op c ho, ?_⟩
  rw [Client.posted, hidle dev idx]
  exact drainQueue_single hfuel

/-- A write that completes. -/
theorem sswapRdmaWrite_idle (host : Host) (hidle : Idle c) (ho : o.Completes)
    (hfuel : o.delay < fuel) (hr : roffset < remoteBufSize) (hdev : dev < numServer)
    (hpage : (c.pages page).swapCache = true) :
    ∃ c', sswapRdmaWrite host fuel o page roffset dev c = .ok 0 c' ∧ Idle c' ∧
      c'.remote = if o.status = .success then Function.update c.remote dev
          (Function.update (c.remote dev) roffset (c.pages page).contents)
        else c.remote := by
  have hle : ¬ roffset ≥ remoteBufSize := not_le.mpr hr
  obtain ⟨idx, hidx⟩ : ∃ idx, sswapRdmaGetQueue host o.cpuid .writeSync = idx := ⟨_, rfl⟩
  obtain ⟨c₁, hadd, hdrain⟩ := queueAdd_drained hidle ho hfuel dev idx page roffset .rdmaWrite
  refine ⟨_, ?_, served_idle hidle dev idx ⟨.rdmaWrite, page, roffset, o.status, o.delay⟩,
    served_write_remote c dev idx page roffset o.delay o.status⟩
  simp only [sswapRdmaWrite, hle, if_false, bind_apply, get_apply, vmBugOnPage, hpage, Bool.not_true,
    Bool.and_false, Bool.false_eq_true, pure_apply, gctrlAt, hdev, if_true, hidx, writeQueueAdd,
    backPressure_idle hidle (by decide : 0 < qpMaxSendWr - 8), hadd, hdrain, ne_eq, not_true_eq_false]

/-- The page that a read gets, on the side of the driver: in the swap cache, locked
and not up to date. -/
structure ToBeRead (pg : Page α) : Prop where
  swapCache : pg.swapCache = true
  locked : pg.locked = true
  stale : pg.uptodate = false

/-- A read that completes. -/
theorem sswapRdmaReadSync_idle (host : Host) (hidle : Idle c) (ho : o.Completes)
    (hfuel : o.delay < fuel) (hr : roffset < remoteBufSize) (hdev : dev < numServer)
    (hpage : ToBeRead (c.pages page)) :
    ∃ c', sswapRdmaReadSync host fuel o page roffset dev c = .ok 0 c' ∧ Idle c' ∧
      c'.remote = c.remote ∧ (c'.pages page).contents =
        if o.status = .success then c.remote dev roffset else (c.pages page).contents := by
  have hle : ¬ roffset ≥ remoteBufSize := not_le.mpr hr
  obtain ⟨idx, hidx⟩ : ∃ idx, sswapRdmaGetQueue host o.cpuid .readSync = idx := ⟨_, rfl⟩
  obtain ⟨c₁, hadd, hdrain⟩ := queueAdd_drained hidle ho hfuel dev idx page roffset .rdmaRead
  refine ⟨_, ?_, served_idle hidle dev idx ⟨.rdmaRead, page, roffset, o.status, o.delay⟩,
    served_read_remote c dev idx page roffset o.delay o.status,
    served_read_contents c dev idx page roffset o.delay o.status⟩
  simp only [sswapRdmaReadSync, hle, if_false, bind_apply, get_apply, vmBugOnPage, hpage.swapCache,
    hpage.locked, hpage.stale, Bool.not_true, Bool.and_false, Bool.false_eq_true, pure_apply, gctrlAt,
    hdev, if_true, hidx, readQueueAdd, backPressure_idle hidle (by decide : 0 < qpMaxSendWr), hadd,
    hdrain]

/-- A read whose page is not mapped returns an error, and has moved nothing. -/
theorem sswapRdmaReadSync_idle_unmapped (host : Host) (hidle : Idle c) (halloc : o.alloc = true)
    (hdma : o.dma = none) (hr : roffset < remoteBufSize) (hdev : dev < numServer)
    (hpage : ToBeRead (c.pages page)) :
    ∃ c', sswapRdmaReadSync host fuel o page roffset dev c = .ok (-enomem) c' ∧ Idle c' ∧
      c'.remote = c.remote ∧ c'.pages = c.pages := by
  have hle : ¬ roffset ≥ remoteBufSize := not_le.mpr hr
  obtain ⟨idx, hidx⟩ : ∃ idx, sswapRdmaGetQueue host o.cpuid .readSync = idx := ⟨_, rfl⟩
  obtain ⟨c₁, hc₁⟩ : ∃ c₁ : Client α,
      { c with reqs := c.reqs + 1, badFrees := c.badFrees + 1 } = c₁ := ⟨_, rfl⟩
  have hidle₁ : Idle c₁ := hc₁ ▸ hidle
  have hadd : queueAdd o dev idx page roffset .rdmaRead c = .ok (-enomem) c₁ := by
    simp [queueAdd, getReqForPage, halloc, hdma, hc₁]
  have hdrain : drainQueue dev idx fuel c₁ = .ok () c₁ := by
    cases fuel <;> simp [drainQueue, hidle₁ dev idx]
  refine ⟨c₁, ?_, hidle₁, by rw [← hc₁], by rw [← hc₁]⟩
  simp only [sswapRdmaReadSync, hle, if_false, bind_apply, get_apply, vmBugOnPage, hpage.swapCache,
    hpage.locked, hpage.stale, Bool.not_true, Bool.and_false, Bool.false_eq_true, pure_apply, gctrlAt,
    hdev, if_true, hidx, readQueueAdd, backPressure_idle hidle (by decide : 0 < qpMaxSendWr), hadd,
    hdrain]

/-- A call that returns has moved its page. -/
def Outcome.Moves (o : Outcome) : Prop := o.dma ≠ none ∧ o.status = .success

instance (o : Outcome) : Decidable o.Moves := inferInstanceAs (Decidable (_ ∧ _))

theorem Outcome.Completes.mapped (h : o.Completes) : o.dma ≠ none := by
  obtain ⟨-, ⟨dma, hdma, -⟩, -⟩ := h
  rw [hdma]
  nofun

theorem Outcome.Completes.moves_iff (h : o.Completes) : o.Moves ↔ o.status = .success :=
  and_iff_right h.mapped

theorem Outcome.Succeeds.moves (h : o.Succeeds) : o.Moves := h.1.moves_iff.mpr h.2

end Multiswap.Rdma
