import Mathlib.Data.Finset.Card
import Multiswap.Rdma.Defs

/-!
# The layout of the queues

`sswap_rdma_init_module` lays out the queues of a server by the number of CPUs
that are online, and `sswap_rdma_get_queue` finds them by the number of a CPU.
-/

namespace Multiswap.Rdma

/-- The poll contexts of a completion queue that the driver asks for. -/
inductive IbPollContext where
  | softirq
  | direct
  deriving DecidableEq, Repr

/-- What `sswap_rdma_init_queue` fixes of a queue: `qp_type`, and the poll context
with which `sswap_rdma_create_queue_ib` allocates its completion queue. -/
structure QueueKind where
  qpType : QpType
  poll : IbPollContext
  deriving DecidableEq, Repr

/-- The poll context that `sswap_rdma_create_queue_ib` chooses. -/
def createQueueIb (type : QpType) : IbPollContext :=
  if type = .readAsync then .softirq else .direct

/-- `numcpus`, as `sswap_rdma_init_module` sets it: `num_online_cpus()`. -/
def hostOf (online : Finset ℕ) (debugVm : Bool) : Host := ⟨online.card, debugVm⟩

/-- `numqueues_perserver`. -/
def numqueuesPerserver (host : Host) : ℕ := host.numcpus * 3

/-- `get_queue_type`. -/
def getQueueType (host : Host) (idx : ℕ) : Except Fault QpType :=
  if idx < host.numcpus then .ok .readSync
  else if idx < host.numcpus * 2 then .ok .readAsync
  else if idx < host.numcpus * 3 then .ok .writeSync
  else .error .bug

/-- `sswap_rdma_init_queue`, as far as the kind of the queue goes. -/
def initQueue (host : Host) (idx : ℕ) : Except Fault QueueKind := do
  let type ← getQueueType host idx
  return ⟨type, createQueueIb type⟩

/-- The loop of `sswap_rdma_init_queues` over the remaining `fuel` queues from `i` on. -/
def initQueuesLoop (host : Host) : (fuel i : ℕ) → Except Fault (List QueueKind)
  | 0, _ => .ok []
  | fuel + 1, i => do
    let q ← initQueue host i
    let qs ← initQueuesLoop host fuel (i + 1)
    return q :: qs

/-- The queues of a server after `sswap_rdma_init_queues`. -/
def initQueues (host : Host) : Except Fault (List QueueKind) :=
  initQueuesLoop host (numqueuesPerserver host) 0

variable {host : Host} {cpu : ℕ} {type : QpType}

/-- The type that the layout gives to an index below `numqueues_perserver`. -/
def typeAt (host : Host) (idx : ℕ) : QpType :=
  if idx < host.numcpus then .readSync else if idx < host.numcpus * 2 then .readAsync else .writeSync

theorem getQueueType_ok {idx : ℕ} (h : idx < numqueuesPerserver host) :
    getQueueType host idx = .ok (typeAt host idx) := by
  have hlt : idx < host.numcpus * 3 := h
  rw [getQueueType, typeAt, if_pos hlt]
  split
  · rfl
  · split <;> rfl

theorem initQueuesLoop_ok {fuel i : ℕ} (h : i + fuel ≤ numqueuesPerserver host) :
    initQueuesLoop host fuel i = .ok ((List.range' i fuel).map fun idx =>
      ⟨typeAt host idx, createQueueIb (typeAt host idx)⟩) := by
  induction fuel generalizing i with
  | zero => rfl
  | succ fuel ih =>
    have htype : getQueueType host i = .ok (typeAt host i) := getQueueType_ok (by omega)
    have hrest := ih (i := i + 1) (by omega)
    simp only [initQueuesLoop, initQueue, htype, hrest, bind, Except.bind, pure, Except.pure,
      List.range'_succ, List.map_cons]

/-- Initialisation never reaches the `BUG` of `get_queue_type`, and fixes the kind of every queue. -/
theorem initQueues_ok (host : Host) : ∃ qs, initQueues host = .ok qs ∧
    qs.length = numqueuesPerserver host ∧
    ∀ idx < numqueuesPerserver host,
      qs[idx]? = some ⟨typeAt host idx, createQueueIb (typeAt host idx)⟩ := by
  refine ⟨_, initQueuesLoop_ok (Nat.le_of_eq (Nat.zero_add _)), by simp, ?_⟩
  intro idx hidx
  simp [hidx]

/-- The index of a CPU below `numcpus` has the type that was asked for. -/
theorem typeAt_getQueue (h : cpu < host.numcpus) (type : QpType) :
    sswapRdmaGetQueue host cpu type < numqueuesPerserver host ∧
      typeAt host (sswapRdmaGetQueue host cpu type) = type := by
  cases type with
  | readSync =>
    have hidx : cpu < host.numcpus * 3 := by omega
    exact ⟨hidx, if_pos h⟩
  | readAsync =>
    have hidx : cpu + host.numcpus < host.numcpus * 3 := by omega
    refine ⟨hidx, ?_⟩
    rw [sswapRdmaGetQueue, typeAt, if_neg (by omega), if_pos (by omega)]
  | writeSync =>
    have hidx : cpu + host.numcpus * 2 < host.numcpus * 3 := by omega
    refine ⟨hidx, ?_⟩
    rw [sswapRdmaGetQueue, typeAt, if_neg (by omega), if_neg (by omega)]

/-- Queue selection is right for the CPUs `execs` after an initialisation with the
CPUs `online`: every index exists, its queue is of the type that was asked for and
polled in the mode of that type, and no two CPUs or types share a queue. -/
structure QueuesRight (online : Finset ℕ) (debugVm : Bool) (execs : Set ℕ) : Prop where
  kinds : ∃ qs, initQueues (hostOf online debugVm) = .ok qs ∧ ∀ cpu ∈ execs, ∀ type,
    sswapRdmaGetQueue (hostOf online debugVm) cpu type < numqueuesPerserver (hostOf online debugVm) ∧
      qs[sswapRdmaGetQueue (hostOf online debugVm) cpu type]? = some ⟨type, createQueueIb type⟩
  apart : ∀ cpu ∈ execs, ∀ cpu' ∈ execs, ∀ type type',
    sswapRdmaGetQueue (hostOf online debugVm) cpu type =
      sswapRdmaGetQueue (hostOf online debugVm) cpu' type' → cpu = cpu' ∧ type = type'

/-- A CPU gets the right queues exactly if its number is below the number of CPUs
that were online. -/
theorem queues_right_iff (online : Finset ℕ) (debugVm : Bool) (execs : Set ℕ) :
    QueuesRight online debugVm execs ↔ ∀ cpu ∈ execs, cpu < online.card := by
  obtain ⟨qs, hqs, -, hkind⟩ := initQueues_ok (hostOf online debugVm)
  constructor
  · rintro ⟨⟨qs', hqs', hall⟩, -⟩ cpu hcpu
    rw [hqs] at hqs'
    cases hqs'
    obtain ⟨hlt, hget⟩ := hall cpu hcpu .readSync
    rw [hkind _ hlt] at hget
    simp only [Option.some.injEq, QueueKind.mk.injEq] at hget
    by_contra hge
    have hcpus : ¬ cpu < (hostOf online debugVm).numcpus := hge
    have htype : typeAt (hostOf online debugVm) cpu ≠ .readSync := by
      rw [typeAt, if_neg hcpus]
      split <;> simp
    exact htype hget.1
  · intro hall
    have hcpus : ∀ cpu ∈ execs, cpu < (hostOf online debugVm).numcpus := hall
    have hat := fun cpu hcpu => typeAt_getQueue (hcpus cpu hcpu)
    constructor
    · refine ⟨qs, hqs, fun cpu hcpu type => ?_⟩
      obtain ⟨hlt, htype⟩ := hat cpu hcpu type
      exact ⟨hlt, by rw [hkind _ hlt, htype]⟩
    · intro cpu hcpu cpu' hcpu' type type' heq
      have htype : type = type' := by
        rw [← (hat cpu hcpu type).2, heq, (hat cpu' hcpu' type').2]
      subst htype
      refine ⟨?_, rfl⟩
      cases type <;> simp only [sswapRdmaGetQueue] at heq <;> omega

/-- CPUs 0 and 2 are online: CPU 2 asks for a synchronous read and gets the
asynchronous queue of CPU 0, which is polled by the softirq. -/
theorem queues_right_counterexample :
    sswapRdmaGetQueue (hostOf {0, 2} false) 2 .readSync =
      sswapRdmaGetQueue (hostOf {0, 2} false) 0 .readAsync ∧
    initQueue (hostOf {0, 2} false) (sswapRdmaGetQueue (hostOf {0, 2} false) 2 .readSync) =
      .ok ⟨.readAsync, .softirq⟩ ∧
    ¬ ∀ (online : Finset ℕ) (debugVm : Bool), QueuesRight online debugVm online := by
  refine ⟨rfl, rfl, fun h => ?_⟩
  have hshared := (h {0, 2} false).apart 2 (by simp) 0 (by simp) .readSync .readAsync rfl
  cases hshared.2

end Multiswap.Rdma
