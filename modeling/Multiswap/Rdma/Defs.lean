import Multiswap.Kernel

/-!
# The RDMA backend

`multiswap_rdma.c`, as far as a page transfer uses it, for one call at a time:
the request object and its DMA mapping, the post, the completion handlers, and
the loops that poll a completion queue, on which requests of other calls may be
in flight. What the kernel and the hardware answer in one call is given by an
`Outcome`.
-/

namespace Multiswap

/-- Why a call does not return. -/
inductive Stop where
  | fault (f : Fault)
  -- A polling loop is still running when its fuel is used up.
  | spin
  deriving DecidableEq, Repr

/-- The contents of a page and the flags that the driver checks or sets. -/
structure Page (α : Type) where
  contents : α
  swapCache : Bool
  locked : Bool
  uptodate : Bool

namespace Rdma

/-- `NUM_SERVER`. -/
def numServer : ℕ := 2

/-- `QP_MAX_SEND_WR`. -/
def qpMaxSendWr : ℕ := 4096

/-- `ENOMEM`. -/
def enomem : ℤ := 12

/-- `enum qp_type`. -/
inductive QpType where
  | readSync
  | readAsync
  | writeSync
  deriving DecidableEq, Repr

/-- The opcodes that the driver posts. -/
inductive WrOpcode where
  | rdmaWrite
  | rdmaRead
  deriving DecidableEq, Repr

/-- `enum ib_wc_status`: `IB_WC_SUCCESS`, or one of the errors. -/
inductive WcStatus where
  | success
  | error (code : ℕ)
  deriving DecidableEq, Repr

/-- What a completion handler does, one kernel call after the other. -/
inductive HandlerStep where
  | dmaSync
  | dmaUnmap
  | setPageUptodate
  | unlockPage
  | decPending
  | freeReq
  deriving DecidableEq, Repr

/-- `sswap_rdma_write_done`. A bad status is printed and otherwise ignored. -/
def sswapRdmaWriteDone : List HandlerStep := [.dmaUnmap, .decPending, .freeReq]

/-- `sswap_rdma_read_done`. A bad status is printed and otherwise ignored. -/
def sswapRdmaReadDone : List HandlerStep :=
  [.dmaSync, .dmaUnmap, .setPageUptodate, .unlockPage, .decPending, .freeReq]

/-- `cqe.done` of the requests of `write_queue_add` and `read_queue_add`. -/
def WrOpcode.done : WrOpcode → List HandlerStep
  | .rdmaWrite => sswapRdmaWriteDone
  | .rdmaRead => sswapRdmaReadDone

/-- What the kernel and the hardware answer in one call. -/
structure Outcome where
  -- `smp_processor_id()`.
  cpuid : ℕ
  -- Whether `kmem_cache_alloc` returns an object.
  alloc : Bool
  -- The address of `ib_dma_map_page`, unless `ib_dma_mapping_error` rejects it.
  dma : Option ℕ
  -- What `ib_post_send` returns.
  post : ℤ
  -- `wc->status`.
  status : WcStatus
  -- The number of polls that come before the completion.
  delay : ℕ

/-- What holds of the whole module: `numcpus`, and whether the kernel was built
with `CONFIG_DEBUG_VM`. -/
structure Host where
  numcpus : ℕ
  debugVm : Bool

/-- A work request that `ib_post_send` has accepted and no poll has reaped. -/
structure Posted where
  op : WrOpcode
  page : ℕ
  roffset : ℕ
  status : WcStatus
  delay : ℕ

/-- `struct rdma_queue`: the counter and the requests in flight. -/
structure RdmaQueue where
  pending : ℤ
  posted : List Posted

/-- What a call reads and changes: the pages by address, the remote memory by
node and offset, the queues by node and index, and the request objects and DMA
mappings that are held. -/
structure Client (α : Type) where
  pages : ℕ → Page α
  remote : ℕ → ℕ → α
  queues : ℕ → ℕ → RdmaQueue
  reqs : ℤ
  mappings : ℤ
  -- Calls of `kmem_cache_free` with a pointer that is no request object.
  badFrees : ℕ

variable {α : Type}

/-- Replace one queue. -/
def Client.setQueue (c : Client α) (dev idx : ℕ) (q : RdmaQueue) : Client α :=
  { c with queues := Function.update c.queues dev (Function.update (c.queues dev) idx q) }

/-- Replace one page. -/
def Client.setPage (c : Client α) (page : ℕ) (pg : Page α) : Client α :=
  { c with pages := Function.update c.pages page pg }

abbrev Exec (α : Type) := EStateM Stop (Client α)

/-- `VM_BUG_ON_PAGE`, whatever the state of the backend is. -/
def vmBugOnPage {σ : Type} (host : Host) (cond : Bool) : EStateM Stop σ Unit :=
  if host.debugVm && cond then throw (.fault .bug) else pure ()

/-- The index that `sswap_rdma_get_queue` computes. -/
def sswapRdmaGetQueue (host : Host) (cpuid : ℕ) : QpType → ℕ
  | .readSync => cpuid
  | .readAsync => cpuid + host.numcpus
  | .writeSync => cpuid + host.numcpus * 2

/-- `gctrl[dev]`. -/
def gctrlAt (dev : ℕ) : Exec α Unit :=
  if dev < numServer then pure () else throw (.fault (.gctrl dev))

/-- `get_req_for_page`: an error code, or the DMA address in the new request. The
test for a failed allocation asks whether the address of the caller's variable is
null, so it never fires and the null request is written to; and the error path
gives that address, not the request, to `kmem_cache_free`. -/
def getReqForPage (o : Outcome) : Exec α (Except ℤ ℕ) := do
  if o.alloc = false then throw (.fault .nullDeref)
  modify fun c => { c with reqs := c.reqs + 1 }
  match o.dma with
  | none =>
    modify fun c => { c with badFrees := c.badFrees + 1 }
    return .error (-enomem)
  | some dma =>
    modify fun c => { c with mappings := c.mappings + 1 }
    return .ok dma

/-- `sswap_rdma_post_rdma`. The increment is not undone when the post fails. -/
def sswapRdmaPostRdma (o : Outcome) (dev idx dma page roffset : ℕ) (op : WrOpcode) : Exec α ℤ := do
  if dma = 0 then throw (.fault .bug)
  modify fun c => c.setQueue dev idx
    { c.queues dev idx with pending := (c.queues dev idx).pending + 1 }
  if o.post = 0 then
    modify fun c => c.setQueue dev idx
      { c.queues dev idx with
        posted := (c.queues dev idx).posted ++ [⟨op, page, roffset, o.status, o.delay⟩] }
  return o.post

/-- One kernel call of a completion handler for a page. -/
def handlerStep (dev idx page : ℕ) (c : Client α) : HandlerStep → Client α
  | .dmaSync => c
  | .dmaUnmap => { c with mappings := c.mappings - 1 }
  | .setPageUptodate => c.setPage page { c.pages page with uptodate := true }
  | .unlockPage => c.setPage page { c.pages page with locked := false }
  | .decPending => c.setQueue dev idx
      { c.queues dev idx with pending := (c.queues dev idx).pending - 1 }
  | .freeReq => { c with reqs := c.reqs - 1 }

/-- What the hardware moves for a request that completes without an error. -/
def moveData (dev : ℕ) (w : Posted) (c : Client α) : Client α :=
  match w.status, w.op with
  | .success, .rdmaWrite =>
    { c with
      remote := Function.update c.remote dev
        (Function.update (c.remote dev) w.roffset (c.pages w.page).contents) }
  | .success, .rdmaRead =>
    c.setPage w.page { c.pages w.page with contents := c.remote dev w.roffset }
  | .error _, _ => c

/-- The completion of a request, reaped by a poll. -/
def complete (dev idx : ℕ) (c : Client α) (w : Posted) : Client α :=
  w.op.done.foldl (handlerStep dev idx w.page) (moveData dev w c)

/-- The requests that a poll reaps, at most `budget`, and those it leaves. -/
def reap : (budget : ℕ) → List Posted → List Posted × List Posted
  | _, [] => ([], [])
  | 0, w :: ws => ([], w :: ws)
  | budget + 1, w :: ws =>
    if w.delay = 0 then
      let (due, left) := reap budget ws
      (w :: due, left)
    else
      let (due, left) := reap (budget + 1) ws
      (due, { w with delay := w.delay - 1 } :: left)

/-- `ib_process_cq_direct`: the number of completions handled. -/
def ibProcessCqDirect (dev idx budget : ℕ) : Exec α ℕ := do
  let c ← get
  let (due, left) := reap budget (c.queues dev idx).posted
  set (due.foldl (complete dev idx) (c.setQueue dev idx { c.queues dev idx with posted := left }))
  return due.length

/-- `poll_target`. -/
def pollTarget (dev idx target : ℕ) : (fuel completed : ℕ) → Exec α ℕ
  | 0, completed => do
    if completed < target ∧ ((← get).queues dev idx).pending > 0 then throw .spin
    return completed
  | fuel + 1, completed => do
    if completed < target ∧ ((← get).queues dev idx).pending > 0 then
      let n ← ibProcessCqDirect dev idx (target - completed)
      pollTarget dev idx target fuel (completed + n)
    else return completed

/-- `drain_queue`. -/
def drainQueue (dev idx : ℕ) : (fuel : ℕ) → Exec α Unit
  | 0 => do
    if ((← get).queues dev idx).pending > 0 then throw .spin
  | fuel + 1 => do
    if ((← get).queues dev idx).pending > 0 then
      let _ ← ibProcessCqDirect dev idx 16
      drainQueue dev idx fuel

/-- The loop at the head of `write_queue_add` and `read_queue_add`. -/
def backPressure (dev idx limit target : ℕ) : (fuel : ℕ) → Exec α Unit
  | 0 => do
    if ((← get).queues dev idx).pending ≥ limit then throw .spin
  | fuel + 1 => do
    let inflight := ((← get).queues dev idx).pending
    if inflight ≥ limit then
      if inflight > qpMaxSendWr then throw (.fault .bug)
      let _ ← pollTarget dev idx target fuel 0
      backPressure dev idx limit target fuel

/-- `write_queue_add` and `read_queue_add` after their loops. -/
def queueAdd (o : Outcome) (dev idx page roffset : ℕ) (op : WrOpcode) : Exec α ℤ := do
  match ← getReqForPage o with
  | .error ret => return ret
  | .ok dma => sswapRdmaPostRdma o dev idx dma page roffset op

/-- `write_queue_add`. -/
def writeQueueAdd (fuel : ℕ) (o : Outcome) (dev idx page roffset : ℕ) : Exec α ℤ := do
  backPressure dev idx (qpMaxSendWr - 8) 2048 fuel
  queueAdd o dev idx page roffset .rdmaWrite

/-- `read_queue_add`. -/
def readQueueAdd (fuel : ℕ) (o : Outcome) (dev idx page roffset : ℕ) : Exec α ℤ := do
  backPressure dev idx qpMaxSendWr 8 fuel
  queueAdd o dev idx page roffset .rdmaRead

/-- `sswap_rdma_write`. -/
def sswapRdmaWrite (host : Host) (fuel : ℕ) (o : Outcome) (page roffset dev : ℕ) :
    Exec α ℤ := do
  if roffset ≥ remoteBufSize then return -1
  vmBugOnPage host (!((← get).pages page).swapCache)
  gctrlAt dev
  let idx := sswapRdmaGetQueue host o.cpuid .writeSync
  let ret ← writeQueueAdd fuel o dev idx page roffset
  if ret ≠ 0 then throw (.fault .bug)
  drainQueue dev idx fuel
  return ret

/-- `sswap_rdma_read_sync`. -/
def sswapRdmaReadSync (host : Host) (fuel : ℕ) (o : Outcome) (page roffset dev : ℕ) :
    Exec α ℤ := do
  if roffset ≥ remoteBufSize then return -1
  vmBugOnPage host (!((← get).pages page).swapCache)
  vmBugOnPage host (!((← get).pages page).locked)
  vmBugOnPage host ((← get).pages page).uptodate
  gctrlAt dev
  let idx := sswapRdmaGetQueue host o.cpuid .readSync
  let ret ← readQueueAdd fuel o dev idx page roffset
  drainQueue dev idx fuel
  return ret

end Rdma

end Multiswap
