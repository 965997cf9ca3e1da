import Mathlib.Algebra.Order.BigOperators.Group.Finset
import Multiswap.Queue.Counter

/-!
# The capacity of the send queue

`write_queue_add` and `read_queue_add` compare `pending` with a bound below
`QP_MAX_SEND_WR` and increment it later, in `sswap_rdma_post_rdma`. What bounds
the counter is not that check: a caller that has incremented it stays until it has
seen it at zero, so that no caller is counted twice.
-/

namespace Multiswap.Queue

open Rdma (qpMaxSendWr)

variable {ι : Type} [DecidableEq ι] {s s' : State ι} {tr ev : List (Event ι)}

/-- No work request is beyond what the send queue was created for, and neither
`BUG_ON(inflight > QP_MAX_SEND_WR)` can fire. -/
structure WithinCapacity (s : State ι) : Prop where
  counter : s.pending ≤ qpMaxSendWr
  check : ∀ i c, s.pc i = .pressure c → c.limit ≤ s.pending → ¬ qpMaxSendWr < s.pending
  sendQueue : s.inflight.length + s.cq.length ≤ qpMaxSendWr

theorem Pc.waiting_le_one (pc : Pc) : pc.waiting 1 ≤ 1 := by
  unfold Pc.waiting
  split <;> decide

section Bound

variable [Fintype ι]

/-- A caller that has incremented the counter stays until it has seen it at zero, so no
caller is counted twice. -/
theorem pending_le_card (h : (system ι).Run tr s) : s.pending ≤ Fintype.card ι := by
  have hawaited : Awaited 1 0 tr s := run_awaited le_rfl h
  have hsum : ∑ i, (s.pc i).waiting 1 ≤ Fintype.card ι := by
    calc ∑ i, (s.pc i).waiting 1 ≤ ∑ _i : ι, 1 := Finset.sum_le_sum fun i _ => (s.pc i).waiting_le_one
      _ = Fintype.card ι := by simp
  unfold Awaited at hawaited
  omega

theorem withinCapacity_of_card (hcard : Fintype.card ι ≤ qpMaxSendWr) (h : (system ι).Run tr s) :
    WithinCapacity s := by
  have hbound := pending_le_card h
  have hcounted := run_counted h
  unfold Counted State.unhandled at hcounted
  constructor
  · omega
  · intro i c _ _
    omega
  · omega

end Bound

/-- The callers of `T` stand right before the increment and have passed the check. -/
def Gathered (T : Finset ι) (s : State ι) : Prop :=
  s.pending = 0 ∧ (∀ i ∈ T, ∃ c r, s.pc i = .raise c r ∧ r.dma ≠ 0) ∧ ∀ i ∉ T, s.pc i = .idle

/-- The callers of `T` have made their increment, and the others stand right before theirs. -/
def Raised (T : Finset ι) (s : State ι) : Prop :=
  s.pending = T.card ∧ ∀ i ∉ T, ∃ c r, s.pc i = .raise c r ∧ r.dma ≠ 0

/-- Any number of callers pass the check before one of them makes its increment. -/
theorem exists_gathered (T : Finset ι) : ∃ tr s, (system ι).Run tr s ∧ Gathered T s := by
  induction T using Finset.induction_on with
  | empty => exact ⟨[], _, .start rfl, rfl, by simp, fun i _ => rfl⟩
  | @insert j T hj ih =>
    obtain ⟨tr, s, hrun, hpending, hraise, hidle⟩ := ih
    have hpass : s.pending < (⟨.rdmaRead, 0⟩ : Call).limit := by
      rw [hpending]
      decide
    have hcalled := hrun.step (.call j ⟨.rdmaRead, 0⟩ (hidle j hj))
    have hpassed := hcalled.step (.pressurePass j (Function.update_self ..) hpass)
    have halloc := hpassed.step (.alloc j (Function.update_self ..))
    have hmap := halloc.step (.map j 4096 (Function.update_self ..))
    refine ⟨_, _, hmap, hpending, ?_, ?_⟩
    · intro i hi
      by_cases hij : i = j
      · subst hij
        exact ⟨_, _, Function.update_self .., Nat.succ_ne_zero _⟩
      · obtain ⟨c, r, hpc, hdma⟩ := hraise i (Finset.mem_of_mem_insert_of_ne hi hij)
        exact ⟨c, r, by simp [State.goto, hij, hpc], hdma⟩
    · intro i hi
      rw [Finset.mem_insert, not_or] at hi
      simp [State.goto, hi.1, hidle i hi.2]

variable [Fintype ι]

/-- The increments follow one another without a further check. -/
theorem exists_raised (T : Finset ι) : ∃ tr s, (system ι).Run tr s ∧ Raised T s := by
  induction T using Finset.induction_on with
  | empty =>
    obtain ⟨tr, s, hrun, hpending, hraise, -⟩ := exists_gathered (Finset.univ : Finset ι)
    exact ⟨tr, s, hrun, hpending, fun i _ => hraise i (Finset.mem_univ i)⟩
  | @insert j T hj ih =>
    obtain ⟨tr, s, hrun, hpending, hraise⟩ := ih
    obtain ⟨c, r, hpc, hdma⟩ := hraise j hj
    refine ⟨_, _, hrun.step (.raise j hpc hdma), ?_, ?_⟩
    · rw [Finset.card_insert_of_notMem hj]
      simp [hpending]
    · intro i hi
      rw [Finset.mem_insert, not_or] at hi
      obtain ⟨c, r, hpc, hdma⟩ := hraise i hi.2
      exact ⟨c, r, by simp [State.goto, hi.1, hpc], hdma⟩

/-- All callers have incremented the counter, and none has posted. -/
theorem exists_all_raised (ι : Type) [DecidableEq ι] [Fintype ι] :
    ∃ tr s, (system ι).Run tr s ∧ s.pending = Fintype.card ι := by
  obtain ⟨tr, s, hrun, hpending, -⟩ := exists_raised (Finset.univ : Finset ι)
  exact ⟨tr, s, hrun, hpending⟩

/-- The callers of one queue stay within its capacity in every run exactly if
there are at most `QP_MAX_SEND_WR` of them. -/
theorem send_queue_capacity_iff (ι : Type) [DecidableEq ι] [Fintype ι] :
    (∀ tr (s : State ι), (system ι).Run tr s → WithinCapacity s) ↔
      Fintype.card ι ≤ qpMaxSendWr := by
  constructor
  · intro h
    obtain ⟨tr, s, hrun, hpending⟩ := exists_all_raised ι
    have hcounter := (h tr s hrun).counter
    omega
  · intro hcard tr s hrun
    exact withinCapacity_of_card hcard hrun

/-- With one caller more than `QP_MAX_SEND_WR`, the counter gets to 4097. -/
theorem send_queue_capacity_counterexample :
    (∃ tr s, (system (Fin 4097)).Run tr s ∧ s.pending = 4097) ∧
      ¬ ∀ (n : ℕ) tr (s : State (Fin n)), (system (Fin n)).Run tr s → WithinCapacity s := by
  obtain ⟨tr, s, hrun, hpending⟩ := exists_all_raised (Fin 4097)
  rw [Fintype.card_fin] at hpending
  refine ⟨⟨tr, s, hrun, hpending⟩, fun h => ?_⟩
  have hcounter := (h 4097 tr s hrun).counter
  rw [hpending] at hcounter
  exact absurd hcounter (by decide)

end Multiswap.Queue
