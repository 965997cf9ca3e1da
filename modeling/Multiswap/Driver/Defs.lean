import Mathlib.Algebra.BigOperators.Group.Finset.Basic
import Multiswap.Lib.Ledger
import Multiswap.Rdma.Defs

/-!
# Loading and unloading the driver

`sswap_rdma_init_module` and `sswap_rdma_cleanup_module`, with everything they
acquire and release. The objects of server `j` and of its queue `i` are named by
these indices. What the kernel answers on the way is given by an `Answers`.
-/

namespace Multiswap.Driver

open Ledger (acquire release)
open Rdma (enomem)

/-- What the module acquires. -/
inductive Resource where
  | reqCache
  -- The registration of `sswap_rdma_ib_client`.
  | client
  | gctrl
  | entry (j : ℕ)
  | ctrl (j : ℕ)
  -- `ctrl->queues`.
  | queues (j : ℕ)
  -- `ctrl->rdev` and its protection domain.
  | rdev (j : ℕ)
  | pd (j : ℕ)
  | cmId (j i : ℕ)
  | cq (j i : ℕ)
  | qp (j i : ℕ)
  deriving DecidableEq, Repr

/-- `ENODEV`. -/
def enodev : ℤ := 19

/-- `EINVAL`. -/
def einval : ℤ := 22

/-- `INET_ADDRSTRLEN`. -/
def inetAddrstrlen : ℕ := 16

/-- What the module is built for: `NUM_SERVER`, the addresses of the servers and of
the client, and `numqueues_perserver`. -/
structure Config where
  numServer : ℕ
  serverip : ℕ → List Char
  clientip : List Char
  numqueuesPerserver : ℕ

/-- What the kernel answers. -/
structure Answers where
  -- Whether `kmem_cache_create` and each `kzalloc` return an object.
  reqCache : Bool
  entry : ℕ → Bool
  ctrl : ℕ → Bool
  queues : ℕ → Bool
  gctrl : Bool
  -- Whether `in4_pton` accepts an address.
  in4Pton : List Char → Bool
  -- What `sswap_rdma_init_queue` returns for queue `i` of server `j`.
  initQueue : (j i : ℕ) → ℤ
  -- What `sswap_rdma_recv_remotemr` returns for server `j`.
  recvRemotemr : (j : ℕ) → ℤ

/-- The memory of the module: which pointers are set, the servers in `gctrl_list`,
and the log of the resources. -/
structure Globals where
  reqCache : Bool
  gctrl : Bool
  rdev : ℕ → Bool
  gctrlList : List ℕ
  log : List (Ledger.Entry Resource)

/-- Before the module is loaded. -/
def Globals.initial : Globals := ⟨false, false, fun _ => false, [], []⟩

instance : Ledger.Logged Globals Resource where
  log := Globals.log
  setLog s l := { s with log := l }
  log_setLog _ _ := rfl
  setLog_setLog _ _ _ := rfl
  setLog_log _ := rfl

@[simp] theorem logged_log (s : Globals) : Ledger.Logged.log s = s.log := rfl

@[simp] theorem logged_setLog (s : Globals) (l : List (Ledger.Entry Resource)) :
    Ledger.Logged.setLog s l = { s with log := l } := rfl

abbrev M := EStateM Fault Globals

variable (cfg : Config) (k : Answers)

/-- `sswap_rdma_init_queue`, with the assumption that it leaves nothing behind if it
fails: what it does leave is the subject of `Multiswap.Handshake`. The first queue of a
server makes `sswap_rdma_get_device` set up `ctrl->rdev`. -/
def initQueue (j i : ℕ) : M ℤ := do
  if k.initQueue j i ≠ 0 then
    return k.initQueue j i
  acquire (.cmId j i)
  if !(← get).rdev j then
    acquire (.rdev j)
    acquire (.pd j)
    modify fun s => { s with rdev := Function.update s.rdev j true }
  acquire (.cq j i)
  acquire (.qp j i)
  return 0

/-- `sswap_rdma_stop_queue` and `sswap_rdma_free_queue`. The first only disconnects. -/
def stopandfreeQueue (j i : ℕ) : M PUnit := do
  release (.qp j i)
  release (.cq j i)
  release (.cmId j i)

/-- The loop under `out_free_queues` of `sswap_rdma_init_queues`, from queue `i - 1` down. -/
def freeQueuesBelow (j : ℕ) : (i : ℕ) → M PUnit
  | 0 => pure ⟨⟩
  | i + 1 => do
    stopandfreeQueue j i
    freeQueuesBelow j i

/-- `sswap_rdma_init_queues` over the remaining `fuel` queues from `i` on. -/
def initQueues (j : ℕ) : (fuel i : ℕ) → M ℤ
  | 0, _ => return 0
  | fuel + 1, i => do
    let ret ← initQueue k j i
    if ret ≠ 0 then
      freeQueuesBelow j i
      return ret
    initQueues j fuel (i + 1)

/-- `sswap_rdma_stopandfree_queues`. -/
def stopandfreeQueues (j : ℕ) : M PUnit :=
  (List.range cfg.numqueuesPerserver).forM fun i => stopandfreeQueue j i

/-- `sswap_rdma_parse_ipaddr`. -/
def parseIpaddr (ip : List Char) : ℤ :=
  if ip.length > inetAddrstrlen then -einval
  else if !k.in4Pton ip then -einval
  else 0

/-- `sswap_rdma_create_ctrl` for the entry of server `j`. -/
def createCtrl (j : ℕ) (serverip clientip : List Char) : M ℤ := do
  if !k.ctrl j then
    return -enomem
  acquire (.ctrl j)
  if !k.queues j then
    return -enomem
  acquire (.queues j)
  if parseIpaddr k serverip ≠ 0 then
    return -einval
  if parseIpaddr k clientip ≠ 0 then
    return -einval
  initQueues k j cfg.numqueuesPerserver 0

/-- `strscpy` into a buffer of `INET_ADDRSTRLEN` bytes. -/
def strscpy (src : List Char) : List Char := src.take (inetAddrstrlen - 1)

/-- `sswap_rdma_create_gctrl_list` over the remaining `fuel` servers from `j` on. -/
def createGctrlList : (fuel j : ℕ) → M ℤ
  | 0, _ => return 0
  | fuel + 1, j => do
    if !k.entry j then
      return -enomem
    acquire (.entry j)
    let ret ← createCtrl cfg k j (strscpy (cfg.serverip j)) (strscpy cfg.clientip)
    if ret ≠ 0 then
      return -enodev
    modify fun s => { s with gctrlList := s.gctrlList ++ [j] }
    createGctrlList fuel (j + 1)

/-- `sswap_rdma_recv_multi_remotemr`. The request of `sswap_rdma_recv_remotemr`, which
starts by following `ctrl->rdev`, is not among the resources here. -/
def recvMultiRemotemr : List ℕ → M ℤ
  | [] => return 0
  | j :: js => do
    if !(← get).rdev j then
      throw .nullDeref
    if k.recvRemotemr j ≠ 0 then
      return -enodev
    recvMultiRemotemr js

/-- Both ways out of `sswap_rdma_init_module` after a failure. -/
def initModuleFail : M ℤ := do
  (← get).gctrlList.forM (stopandfreeQueues cfg)
  release .client
  return -enodev

/-- The end of `sswap_rdma_init_module`: the result of the `kzalloc` for `gctrl` is not
checked before the loop over `gctrl_list` fills it. -/
def fillGctrl : M PUnit := do
  if k.gctrl then
    acquire .gctrl
    modify fun s => { s with gctrl := true }
  if !(← get).gctrl ∧ (← get).gctrlList ≠ [] then
    throw .nullDeref

/-- `sswap_rdma_init_module`. -/
def initModule : M ℤ := do
  if !k.reqCache then
    return -enomem
  acquire .reqCache
  modify fun s => { s with reqCache := true }
  acquire .client
  if (← createGctrlList cfg k cfg.numServer 0) ≠ 0 then
    return ← initModuleFail cfg
  if (← recvMultiRemotemr k (← get).gctrlList) ≠ 0 then
    return ← initModuleFail cfg
  fillGctrl k
  return 0

/-- `kfree` of a pointer that may be null, which it ignores. -/
def kfree (p : Bool) (r : Resource) : M PUnit := Ledger.releaseIf p r

/-- `sswap_rdma_cleanup_module`. -/
def cleanupModule : M PUnit := do
  (← get).gctrlList.forM (stopandfreeQueues cfg)
  release .client
  (← get).gctrlList.forM fun j => do
    release (.ctrl j)
    release (.entry j)
  modify fun s => { s with gctrlList := [] }
  kfree (← get).gctrl .gctrl
  if (← get).reqCache then
    release .reqCache

/-- The module is loaded and, if that succeeds, unloaded. -/
def life : M ℤ := do
  let ret ← initModule cfg k
  if ret = 0 then
    cleanupModule cfg
  return ret

end Multiswap.Driver
