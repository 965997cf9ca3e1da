import Multiswap.Lib.StateError
import Multiswap.Rdma.Defs

/-!
# The DRAM backend

`multiswap_dram.c`: the same two functions over one buffer of local memory. They
take a node as the RDMA backend does, and do not use it.
-/

namespace Multiswap.Dram

open Rdma (Host vmBugOnPage)
open StateError

/-- What a call reads and changes: the pages by address, and `drambuf` by offset. -/
structure Client (α : Type) where
  pages : ℕ → Page α
  drambuf : ℕ → α

variable {α : Type}

/-- `sswap_rdma_write`. -/
def sswapRdmaWrite (page roffset _dev : ℕ) : EStateM Stop (Client α) ℤ := do
  if roffset ≥ remoteBufSize then return -1
  modify fun c => { c with drambuf := Function.update c.drambuf roffset (c.pages page).contents }
  return 0

/-- `sswap_rdma_read_sync`. -/
def sswapRdmaReadSync (host : Host) (page roffset _dev : ℕ) : EStateM Stop (Client α) ℤ := do
  if roffset ≥ remoteBufSize then return -1
  vmBugOnPage host (!((← get).pages page).swapCache)
  vmBugOnPage host (!((← get).pages page).locked)
  vmBugOnPage host ((← get).pages page).uptodate
  modify fun c =>
    let pg := { c.pages page with contents := c.drambuf roffset, uptodate := true, locked := false }
    { c with pages := Function.update c.pages page pg }
  return 0

variable {host : Host} {c : Client α} {page roffset : ℕ}

theorem sswapRdmaWrite_ok (hr : roffset < remoteBufSize) (dev : ℕ) :
    sswapRdmaWrite page roffset dev c =
      .ok 0 { c with drambuf := Function.update c.drambuf roffset (c.pages page).contents } := by
  have hle : ¬ roffset ≥ remoteBufSize := not_le.mpr hr
  simp only [sswapRdmaWrite, hle, if_false, bind_apply, modify_apply, pure_apply]

theorem sswapRdmaReadSync_ok (hr : roffset < remoteBufSize)
    (hpage : (c.pages page).swapCache = true) (hlocked : (c.pages page).locked = true)
    (hstale : (c.pages page).uptodate = false) (dev : ℕ) :
    sswapRdmaReadSync host page roffset dev c =
      .ok 0 { c with pages := Function.update c.pages page ⟨c.drambuf roffset, true, false, true⟩ } := by
  have hle : ¬ roffset ≥ remoteBufSize := not_le.mpr hr
  simp only [sswapRdmaReadSync, hle, if_false, bind_apply, get_apply, vmBugOnPage, hpage, hlocked,
    hstale, Bool.not_true, Bool.and_false, Bool.false_eq_true, pure_apply, modify_apply]

end Multiswap.Dram
