import Multiswap.Rdma.Polling

/-!
# What becomes of a failed transfer

The result of one call, for every outcome of its steps. The completion handlers
ignore the status, so a transfer that reaches its completion returns `0` whatever
the hardware reports; the failures before that stop the kernel in a write and, in
a read, return an error only when the DMA mapping fails.
-/

namespace Multiswap.Rdma

open StateError

variable {α : Type} {host : Host} {fuel dev idx page roffset : ℕ} {o : Outcome} {op : WrOpcode}
  {c : Client α}

/-- The transfer reaches its completion. -/
def Outcome.Completes (o : Outcome) : Prop :=
  o.alloc = true ∧ (∃ dma, o.dma = some dma ∧ dma ≠ 0) ∧ o.post = 0

/-- The transfer reaches its completion with the status `IB_WC_SUCCESS`. -/
def Outcome.Succeeds (o : Outcome) : Prop := o.Completes ∧ o.status = .success

/-! ## Adding a request -/

/-- The client after a request was posted. -/
def Client.posted (c : Client α) (dev idx : ℕ) (w : Posted) : Client α :=
  Client.setQueue { c with reqs := c.reqs + 1, mappings := c.mappings + 1 } dev idx
    ⟨(c.queues dev idx).pending + 1, (c.queues dev idx).posted ++ [w]⟩

theorem queueAdd_completes (dev idx page roffset : ℕ) (op : WrOpcode) (c : Client α)
    (ho : o.Completes) :
    queueAdd o dev idx page roffset op c =
      .ok 0 (c.posted dev idx ⟨op, page, roffset, o.status, o.delay⟩) := by
  obtain ⟨halloc, ⟨dma, hdma, hne⟩, hpost⟩ := ho
  simp [queueAdd, getReqForPage, sswapRdmaPostRdma, halloc, hdma, hne, hpost, Client.setQueue,
    Client.posted]

/-- A request that is not posted: the kernel stops or an error is returned, with
the pages and the requests in flight as they were. -/
theorem queueAdd_fails (dev idx page roffset : ℕ) (op : WrOpcode) (c : Client α)
    (ho : ¬ o.Completes) :
    ∃ c' : Client α, c'.pages = c.pages ∧ (c'.queues dev idx).posted = (c.queues dev idx).posted ∧
      ((∃ f, queueAdd o dev idx page roffset op c = .error (.fault f) c') ∨
        ∃ ret, queueAdd o dev idx page roffset op c = .ok ret c' ∧ ret ≠ 0) := by
  cases halloc : o.alloc with
  | false => exact ⟨c, rfl, rfl, .inl ⟨.nullDeref, by simp [queueAdd, getReqForPage, halloc]⟩⟩
  | true =>
    cases hdma : o.dma with
    | none =>
      refine ⟨{ c with reqs := c.reqs + 1, badFrees := c.badFrees + 1 }, rfl, rfl, .inr
        ⟨-enomem, ?_, by decide⟩⟩
      simp [queueAdd, getReqForPage, halloc, hdma]
    | some dma =>
      by_cases hzero : dma = 0
      · refine ⟨{ c with reqs := c.reqs + 1, mappings := c.mappings + 1 }, rfl, rfl, .inl
          ⟨.bug, ?_⟩⟩
        simp [queueAdd, getReqForPage, sswapRdmaPostRdma, halloc, hdma, hzero]
      · have hpost : o.post ≠ 0 := fun hpost => ho ⟨halloc, ⟨dma, hdma, hzero⟩, hpost⟩
        refine ⟨Client.setQueue { c with reqs := c.reqs + 1, mappings := c.mappings + 1 } dev idx
          { c.queues dev idx with pending := (c.queues dev idx).pending + 1 }, rfl, by simp, .inr
          ⟨o.post, ?_, hpost⟩⟩
        simp [queueAdd, getReqForPage, sswapRdmaPostRdma, halloc, hdma, hzero, hpost]

@[simp] theorem posted_queues (c : Client α) (dev idx : ℕ) (w : Posted) :
    (c.posted dev idx w).queues dev idx =
      ⟨(c.queues dev idx).pending + 1, (c.queues dev idx).posted ++ [w]⟩ :=
  setQueue_queues _ _ _ _

theorem posted_exact (w : Posted) (h : Exact dev idx c) : Exact dev idx (c.posted dev idx w) := by
  rw [Exact] at h
  simp [Exact, h]

/-! ## Reads -/

/-- What the callers of `sswap_rdma_read_sync` guarantee: the offset and the node
exist, the swap core holds the lock of the page, and the page is not up to date.
Requests of other calls may be in flight on the queue; they are for other pages,
the counter counts them, and they are no more than the queue admits. -/
structure Ready (host : Host) (o : Outcome) (page roffset dev : ℕ) (c : Client α) : Prop where
  offset : roffset < remoteBufSize
  node : dev < numServer
  swapCache : (c.pages page).swapCache = true
  locked : (c.pages page).locked = true
  stale : (c.pages page).uptodate = false
  exact : Exact dev (sswapRdmaGetQueue host o.cpuid .readSync) c
  room : (c.queues dev (sswapRdmaGetQueue host o.cpuid .readSync)).posted.length ≤ qpMaxSendWr
  others : ∀ w ∈ (c.queues dev (sswapRdmaGetQueue host o.cpuid .readSync)).posted, w.page ≠ page

/-- `sswap_rdma_read_sync` past its checks. -/
theorem sswapRdmaReadSync_eq (h : Ready host o page roffset dev c) (fuel : ℕ) :
    sswapRdmaReadSync host fuel o page roffset dev c = (do
      let ret ← readQueueAdd fuel o dev (sswapRdmaGetQueue host o.cpuid .readSync) page roffset
      drainQueue dev (sswapRdmaGetQueue host o.cpuid .readSync) fuel
      return ret : Exec α ℤ) c := by
  have hle : ¬ roffset ≥ remoteBufSize := not_le.mpr h.offset
  simp only [sswapRdmaReadSync, hle, if_false, bind_apply, get_apply, vmBugOnPage, h.swapCache,
    h.locked, h.stale, Bool.not_true, Bool.and_false, Bool.false_eq_true, pure_apply, gctrlAt,
    h.node, if_true]

/-- A read whose transfer is not completed leaves its page as it was, and does
not return `0`. -/
theorem sswapRdmaReadSync_fails (h : Ready host o page roffset dev c) (ho : ¬ o.Completes)
    (fuel : ℕ) :
    (finalState (sswapRdmaReadSync host fuel o page roffset dev c)).pages page = c.pages page ∧
      ∀ c', sswapRdmaReadSync host fuel o page roffset dev c ≠ .ok 0 c' := by
  have hback := backPressure_polled dev (sswapRdmaGetQueue host o.cpuid .readSync) qpMaxSendWr 8
    fuel c
  rw [sswapRdmaReadSync_eq h]
  simp only [readQueueAdd, bind_apply]
  cases hrun : backPressure dev (sswapRdmaGetQueue host o.cpuid .readSync) qpMaxSendWr 8 fuel c with
  | error e c₁ =>
    rw [hrun] at hback
    exact ⟨hback.pages page h.others, fun c' heq => by cases heq⟩
  | ok u c₁ =>
    rw [hrun] at hback
    have hpage₁ : c₁.pages page = c.pages page := hback.pages page h.others
    obtain ⟨c₂, hpages, hposted, ⟨f, hadd⟩ | ⟨ret, hadd, hne⟩⟩ :=
      queueAdd_fails dev (sswapRdmaGetQueue host o.cpuid .readSync) page roffset .rdmaRead c₁ ho
    · simp only [hadd, finalState_error]
      exact ⟨by rw [hpages, hpage₁], fun c' heq => by cases heq⟩
    · -- The loop after the failed request polls for the requests of other calls only.
      have hdrain := drainQueue_polled dev (sswapRdmaGetQueue host o.cpuid .readSync) fuel c₂
      have hpage := hdrain.pages page (by rw [hposted]; exact hback.other h.others)
      rw [hpages, hpage₁] at hpage
      simp only [hadd]
      cases hrun₂ : drainQueue dev (sswapRdmaGetQueue host o.cpuid .readSync) fuel c₂ with
      | error e c₃ =>
        rw [hrun₂] at hpage
        exact ⟨hpage, fun c' heq => by cases heq⟩
      | ok u c₃ =>
        rw [hrun₂] at hpage
        refine ⟨hpage, fun c' heq => ?_⟩
        simp only [pure_apply, EStateM.Result.ok.injEq] at heq
        exact hne heq.1

/-- A read whose transfer is completed returns `0` and marks its page up to date,
whatever its status. -/
theorem sswapRdmaReadSync_completes (h : Ready host o page roffset dev c) (ho : o.Completes) :
    ∃ fuel c', sswapRdmaReadSync host fuel o page roffset dev c = .ok 0 c' ∧
      (c'.pages page).uptodate = true := by
  -- Enough fuel for the requests in flight and for the new one.
  obtain ⟨idx, hidx⟩ : ∃ idx, sswapRdmaGetQueue host o.cpuid .readSync = idx := ⟨_, rfl⟩
  obtain ⟨w, hw⟩ : ∃ w : Posted, ⟨.rdmaRead, page, roffset, o.status, o.delay⟩ = w := ⟨_, rfl⟩
  obtain ⟨fuel, hfuel⟩ : ∃ fuel, work (c.queues dev idx).posted + o.delay + 1 = fuel := ⟨_, rfl⟩
  have hexact : Exact dev idx c := hidx ▸ h.exact
  obtain ⟨c₁, hback, hc₁⟩ := backPressure_exact qpMaxSendWr 8 hexact (hidx ▸ h.room) (by decide)
    (by decide) (by omega : work (c.queues dev idx).posted < fuel)
  have hadd := queueAdd_completes dev idx page roffset .rdmaRead c₁ ho
  rw [hw] at hadd
  have hwork : work ((c₁.posted dev idx w).queues dev idx).posted ≤ fuel := by
    have hle := hc₁.work
    rw [posted_queues, work_append, work_cons, work_nil, ← hw]
    dsimp only
    omega
  obtain ⟨c₂, hdrain, hc₂, hnil⟩ := drainQueue_exact (posted_exact w (hc₁.exact hexact)) hwork
  refine ⟨fuel, c₂, ?_, ?_⟩
  · rw [sswapRdmaReadSync_eq h, hidx]
    simp [readQueueAdd, hback, hadd, hdrain]
  · have hmarks : Marks dev idx c₂ page := by
      apply hc₂.marks page
      exact .inr ⟨w, by simp, by rw [← hw]; rfl⟩
    rcases hmarks with hup | ⟨w', hw', -⟩
    · exact hup
    · rw [hnil] at hw'
      cases hw'

/-- A locked page of the swap cache that is not up to date, on idle queues. -/
def idleClient : Client ℕ where
  pages _ := ⟨7, true, true, false⟩
  remote _ _ := 0
  queues _ _ := ⟨0, []⟩
  reqs := 0
  mappings := 0
  badFrees := 0

theorem idleClient_ready (host : Host) (o : Outcome) (page : ℕ) (hr : roffset < remoteBufSize)
    (hdev : dev < numServer) : Ready host o page roffset dev idleClient where
  offset := hr
  node := hdev
  swapCache := rfl
  locked := rfl
  stale := rfl
  exact := rfl
  room := Nat.zero_le _
  others _ hw := by cases hw

end Multiswap.Rdma
