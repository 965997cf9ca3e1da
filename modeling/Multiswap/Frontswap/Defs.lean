import Multiswap.Rdma.Defs
import Multiswap.Scheduler.Defs

/-!
# The frontswap operations

`sswap_store` and `sswap_load` of `multiswap.c` as shipped (`USE_SCHEDULE`), over
a backend given by its two page transfers.
-/

namespace Multiswap

variable {β : Type} (cfg : Config)

/-- The result code of a store or a load: `-1` if the transfer reports an error. -/
def afterTransfer (s : Scheduler) : EStateM.Result Stop β ℤ → EStateM.Result Stop (Scheduler × β) ℤ
  | .ok ret b => .ok (if ret ≠ 0 then -1 else 0) (s, b)
  | .error e b => .error e (s, b)

/-- `sswap_store`, where `rdmaWrite roffset rtype` is the `sswap_rdma_write` of
the backend. -/
def sswapStore (rdmaWrite : ℕ → ℕ → EStateM Stop β ℤ) (xaErr : Bool) (pageid : ℕ) :
    EStateM Stop (Scheduler × β) ℤ := fun (s, b) =>
  match sswapSchedulerWrite cfg xaErr pageid s with
  | .error f => .error (.fault f) (s, b)
  | .ok (roffset, rtype, s') => afterTransfer s' (rdmaWrite roffset rtype b)

/-- `sswap_load`, where `rdmaReadSync roffset rtype` is the `sswap_rdma_read_sync`
of the backend. -/
def sswapLoad (rdmaReadSync : ℕ → ℕ → EStateM Stop β ℤ) (pageid : ℕ) :
    EStateM Stop (Scheduler × β) ℤ := fun (s, b) =>
  match sswapSchedulerRead cfg pageid s with
  | .error f => .error (.fault f) (s, b)
  | .ok (roffset, rtype) => afterTransfer s (rdmaReadSync roffset rtype b)

namespace Rdma

variable {α : Type}

/-- `sswap_store` of the RDMA build. -/
def store (host : Host) (fuel : ℕ) (o : Outcome) (xaErr : Bool) (pageid page : ℕ) :
    EStateM Stop (Scheduler × Client α) ℤ :=
  sswapStore cfg (sswapRdmaWrite host fuel o page) xaErr pageid

/-- `sswap_load` of the RDMA build. -/
def load (host : Host) (fuel : ℕ) (o : Outcome) (pageid page : ℕ) :
    EStateM Stop (Scheduler × Client α) ℤ :=
  sswapLoad cfg (sswapRdmaReadSync host fuel o page) pageid

end Rdma

end Multiswap
