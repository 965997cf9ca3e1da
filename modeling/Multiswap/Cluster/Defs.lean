import Multiswap.Pairing.Defs
import Multiswap.Transport.Defs

/-!
# The client and its memory servers

`NUM_SERVER` processes of `rmserver.c`, and one client that loads the module against
them: `sswap_rdma_init_module` connects the queues of one server after the other and then
receives the memory region of each. From then on stores and loads run over the queues as in
`Multiswap.Transport`, under its assumptions, and every work request carries an address and
a key made from what was received.
-/

namespace Multiswap.Cluster

open Rdma (Host numServer)
open Server (Call MemRegion Process)
open Transport (QueueId)

/-- Where `sswap_rdma_init_module` stands. -/
inductive Phase where
  -- In `sswap_rdma_init_queues` for a server.
  | connecting (t : ℕ)
  -- In `sswap_rdma_recv_remotemr` for a server.
  | receiving (t : ℕ)
  -- It has returned 0.
  | loaded
  deriving DecidableEq, Repr

/-- `sswap_rdma_create_gctrl_list` after a server. -/
def Phase.afterConnecting (t : ℕ) : Phase :=
  if t + 1 < numServer then .connecting (t + 1) else .receiving 0

/-- `sswap_rdma_recv_multi_remotemr` after a server. -/
def Phase.afterReceiving (t : ℕ) : Phase :=
  if t + 1 < numServer then .receiving (t + 1) else .loaded

/-- `remote_addr` and `rkey` of a work request. -/
structure Access where
  remoteAddr : ℕ
  rkey : ℕ
  deriving DecidableEq, Repr

variable {α : Type} {n : ℕ}

/-- The servers, the client and what is on the wire. -/
structure State (α : Type) (n : ℕ) where
  -- Each server, and the queues of the client to it.
  pair : ℕ → Pairing.State
  phase : Phase
  -- `ctrl->servermr` of each server.
  servermr : ℕ → MemRegion
  driver : Transport.State α n
  access : QueueId → Queue.Req → Access

/-- The module loads that have ended. -/
def State.load (s : State α n) : ℕ := (s.pair 0).load

/-- What a step shows. -/
inductive Event (α : Type) (n : ℕ) where
  -- A server, or the queues of the client to it.
  | pair (t : ℕ) (a : Pairing.Action)
  -- `sswap_rdma_init_module` has failed.
  | failed
  | driver (e : Transport.Event α n)

/-- What can happen between the client and server `t`. The client connects to one server at
a time, and does not disconnect a queue in other ways than by failing. -/
def Allows (t : ℕ) : Phase → Pairing.Action → Prop
  | .connecting j, .connect | .connecting j, .established => t = j
  | _, .connect | _, .established | _, .stop => False
  | _, .serve .. | _, .other .. | _, .noEvent _ => True

/-- What `sswap_rdma_post_rdma` puts into a work request for `roffset`. -/
def accessOf (mr : MemRegion) (roffset : ℕ) : Access := ⟨u64 (mr.baseaddr + roffset), mr.key⟩

/-- The accesses after an event of the driver, which has led to `d`. -/
def posted (servermr : ℕ → MemRegion) (d : Transport.State α n)
    (access : QueueId → Queue.Req → Access) : Transport.Event α n → QueueId → Queue.Req → Access
  | .onQueue q (.posted _ r) => Function.update access q
      (Function.update (access q) r (accessOf (servermr q.dev) (d.roffset q r)))
  | _ => access

variable (cfg : Config) (hosts : ℕ → Host)

/-- The processors of the client in each load. -/
def numcpus (load : ℕ) : ℕ := (hosts load).numcpus

/-- The steps of the servers and of the client. -/
inductive Step : State α n → List (Event α n) → State α n → Prop
  | pair {s : State α n} (t : ℕ) (a : Pairing.Action) {ev : List (Server.CmEvent Pairing.Link)}
      {p : Pairing.State} : t < numServer → Allows t s.phase a →
      Pairing.act (numcpus hosts) (s.pair t) a = some (ev, p) →
      Step s [.pair t a] { s with pair := Function.update s.pair t p }
  -- `sswap_rdma_init_queues` returns 0.
  | connected {s : State α n} {t : ℕ} : s.phase = .connecting t →
      (s.pair t).Complete (numcpus hosts) → Step s [] { s with phase := .afterConnecting t }
  -- The message of the server lands in `ctrl->servermr`.
  | receive {s : State α n} {t : ℕ} {mr : MemRegion} : s.phase = .receiving t →
      Call.postSend ((s.pair t).link 0) mr ∈ (s.pair t).server.globals.calls →
      Step s [] { s with
        servermr := Function.update s.servermr t mr
        phase := .afterReceiving t }
  -- The queues that are established disconnect, and the module can be loaded again.
  | fail {s : State α n} {pair : ℕ → Pairing.State} : s.phase ≠ .loaded →
      (∀ t, Pairing.act (numcpus hosts) (s.pair t) .stop = some ([], pair t)) →
      Step s [.failed] { s with pair := pair, phase := .connecting 0, servermr := fun _ => ⟨0, 0⟩ }
  | run {s : State α n} {ev : List (Transport.Event α n)} {d : Transport.State α n} :
      s.phase = .loaded → Transport.Step cfg (hosts s.load) s.driver ev d →
      Step s (ev.map .driver)
        { s with driver := d, access := ev.foldl (posted s.servermr d) s.access }

/-- The servers wait for their first event, and the module is loaded for the first time. -/
def system (n : ℕ) (remote : ℕ → ℕ → α) : Transition.System (State α n) (Event α n) where
  init s := ∃ d, (Transport.system cfg (hosts 0) n remote).init d ∧
    s = ⟨fun _ => .initial, .connecting 0, fun _ => ⟨0, 0⟩, d, fun _ _ => ⟨0, 0⟩⟩
  step := Step cfg hosts

/-- The network card of a server serves an access to one page: the process has registered a
region under this key, and the page is in it. -/
def Grants {κ : Type} (p : Process κ) (a : Access) : Prop :=
  p.InLoops ∧ ∃ mr roffset, p.globals.device = some mr ∧ roffset + pageSize ≤ Server.bufferSize ∧
    a = accessOf mr roffset

end Multiswap.Cluster
