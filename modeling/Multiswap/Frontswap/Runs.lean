import Multiswap.Dram.Defs
import Multiswap.Frontswap.Defs

/-!
# Runs of stores and loads

Calls of `sswap_store` and `sswap_load` one after the other, over either backend:
the replies, and the state in the end. Every `xa_store` succeeds.
-/

namespace Multiswap

open Rdma (Host Outcome)
open StateError (finalState)

variable {α β : Type}

inductive FrontswapOp where
  | store
  | load
  deriving DecidableEq, Repr

/-- A call: its swap area, its pageid, the address of its page and what is in the
page, and the answers of the kernel and the hardware. -/
structure Call (α : Type) where
  op : FrontswapOp
  type : ℕ
  pageid : ℕ
  page : ℕ
  contents : α
  outcome : Outcome

/-- The page that the swap core passes: locked, in the swap cache, and up to date
unless it is to be loaded. -/
def Call.pageIn (c : Call α) : Page α := ⟨c.contents, true, true, decide (c.op = .store)⟩

/-- The functions of a backend that `multiswap.c` calls, and the pages they work on. -/
structure Backend (α β : Type) where
  rdmaWrite : Outcome → (page roffset dev : ℕ) → EStateM Stop β ℤ
  rdmaReadSync : Outcome → (page roffset dev : ℕ) → EStateM Stop β ℤ
  pages : β → ℕ → Page α
  setPage : β → ℕ → Page α → β

/-- What a call gives back: its result code unless it stops, and what a load has
left in its page. -/
structure Reply (α : Type) where
  result : Except Stop ℤ
  loaded : Option α

/-- The result code, or why there is none. -/
def resultCode {σ : Type} : EStateM.Result Stop σ ℤ → Except Stop ℤ
  | .ok ret _ => .ok ret
  | .error e _ => .error e

namespace Backend

variable (B : Backend α β) (cfg : Config)

/-- One call, with an `xa_store` that succeeds. `type` is not used. -/
def call (st : Scheduler × β) (c : Call α) : Reply α × (Scheduler × β) :=
  let st := (st.1, B.setPage st.2 c.page c.pageIn)
  match c.op with
  | .store =>
    let r := sswapStore cfg (B.rdmaWrite c.outcome c.page) false c.pageid st
    (⟨resultCode r, none⟩, finalState r)
  | .load =>
    let r := sswapLoad cfg (B.rdmaReadSync c.outcome c.page) c.pageid st
    (⟨resultCode r, some (B.pages (finalState r).2 c.page).contents⟩, finalState r)

/-- The state after a run. -/
def after (st : Scheduler × β) (calls : List (Call α)) : Scheduler × β :=
  calls.foldl (fun st c => (B.call cfg st c).2) st

/-- The replies of a run. -/
def replies : Scheduler × β → List (Call α) → List (Reply α)
  | _, [] => []
  | st, c :: cs => (B.call cfg st c).1 :: replies (B.call cfg st c).2 cs

end Backend

namespace Rdma

/-- The build over the RDMA backend. -/
def backend (host : Host) (fuel : ℕ) : Backend α (Client α) where
  rdmaWrite := sswapRdmaWrite host fuel
  rdmaReadSync := sswapRdmaReadSync host fuel
  pages := Client.pages
  setPage := Client.setPage

/-- Zeroed memory of the servers, and idle queues. -/
def Client.zeroed (zero : α) (pages : ℕ → Page α) : Client α :=
  ⟨pages, fun _ _ => zero, fun _ _ => ⟨0, []⟩, 0, 0, 0⟩

end Rdma

namespace Dram

/-- The build over the DRAM backend. -/
def backend (host : Host) : Backend α (Client α) where
  rdmaWrite _ := sswapRdmaWrite
  rdmaReadSync _ := sswapRdmaReadSync host
  pages := Client.pages
  setPage c page pg := { c with pages := Function.update c.pages page pg }

/-- `vzalloc`. -/
def Client.zeroed (zero : α) (pages : ℕ → Page α) : Client α := ⟨pages, fun _ => zero⟩

end Dram

end Multiswap
