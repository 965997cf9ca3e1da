import Multiswap.Frontswap.Cells

/-!
# The two builds

The RDMA backend addresses a page by node and offset, the DRAM backend by offset
alone. The scheduler gives out the same slots on both nodes, so pages of
different nodes share a cell of the DRAM backend.
-/

namespace Multiswap

open CellStore (last)
open Rdma (Host Outcome)

variable {α : Type} {zero : α} {before calls : List (Call α)} {c : Call α} {p fuel : ℕ} {host : Host}

/-- Among the stores to pages with the slot number that a load of `p` reads, the
last one on either node has the contents of the last one on the node of `p`. -/
def SlotAgrees (zero : α) (before : List (Call α)) (p : ℕ) : Prop :=
  last zero (placeOf (stored before) · = readPlace before p) (stores before) =
    last zero (fun q => (placeOf (stored before) q).1 = (readPlace before p).1) (stores before)

instance [DecidableEq α] : Decidable (SlotAgrees zero before p) := inferInstanceAs (Decidable (_ = _))

/-- The loads that read a cell: those of stored pages, and of unmapped pages where
that does not stop the kernel. -/
def Reads (debugVm : Bool) (before : List (Call α)) (c : Call α) : Prop :=
  c.op = .load ∧ c.pageid < remoteBufSize >>> pageShift ∧
    (c.pageid ∈ stored before ∨ debugVm = false)

instance (debugVm : Bool) (before : List (Call α)) (c : Call α) : Decidable (Reads debugVm before c) :=
  inferInstanceAs (Decidable (_ ∧ _ ∧ _))

theorem expected_eq_iff (debugVm : Bool) (zero : α) (before : List (Call α)) (hmoves : c.outcome.Moves) :
    expected debugVm zero id before c = expected debugVm zero Prod.fst before c ↔
      (Reads debugVm before c → SlotAgrees zero before c.pageid) := by
  cases hop : c.op with
  | store => simp [expected, hop, Reads]
  | load =>
    simp only [expected, hop, expectedLoad]
    by_cases hr : c.pageid < remoteBufSize >>> pageShift
    · by_cases hread : c.pageid ∈ stored before ∨ debugVm = false
      · have hreads : Reads debugVm before c := ⟨hop, hr, hread⟩
        simp only [if_pos hr, if_pos hread, if_pos hmoves, hreads, forall_const, Reply.mk.injEq,
          true_and, Option.some.injEq]
        rfl
      · have hreads : ¬ Reads debugVm before c := fun h => hread h.2.2
        simp only [if_pos hr, if_neg hread, hreads, false_implies]
    · have hreads : ¬ Reads debugVm before c := fun h => hr h.2.1
      simp only [if_neg hr, hreads, false_implies]

theorem rdma_replies (host : Host) (pages : ℕ → Page α)
    (hok : ∀ c ∈ calls, c.outcome.Succeeds ∧ c.outcome.delay < fuel) (n : ℕ) :
    ((Rdma.backend host fuel).replies (initScheduler host.debugVm)
      (.init, .zeroed zero pages) calls)[n]? =
        calls[n]?.map (expected host.debugVm zero id (calls.take n)) := by
  have hsim : Sim (Rdma.cells host fuel) host.debugVm zero [] (.init, .zeroed zero pages) :=
    .init (fun _ _ => rfl) rfl
  exact hsim.replies (fun c hc => ⟨(hok c hc).1.returns c.op, (hok c hc).2⟩) n

theorem dram_replies (host : Host) (pages : ℕ → Page α) (hok : ∀ c ∈ calls, c.outcome.Succeeds)
    (n : ℕ) :
    ((Dram.backend host).replies (initScheduler host.debugVm)
      (.init, .zeroed zero pages) calls)[n]? =
        calls[n]?.map (expected host.debugVm zero Prod.fst (calls.take n)) := by
  have hsim : Sim (Dram.cells host) host.debugVm zero [] (.init, .zeroed zero pages) :=
    .init trivial rfl
  exact hsim.replies hok n

theorem replies_eq_iff (pages : ℕ → Page α)
    (hok : ∀ c ∈ calls, c.outcome.Succeeds ∧ c.outcome.delay < fuel) :
    (Rdma.backend host fuel).replies (initScheduler host.debugVm) (.init, .zeroed zero pages) calls =
        (Dram.backend host).replies (initScheduler host.debugVm) (.init, .zeroed zero pages) calls ↔
      ∀ n c, calls[n]? = some c → Reads host.debugVm (calls.take n) c →
        SlotAgrees zero (calls.take n) c.pageid := by
  have hmoves : ∀ {n} {c : Call α}, calls[n]? = some c → c.outcome.Moves :=
    fun hc => (hok _ (List.mem_of_getElem? hc)).1.moves
  rw [List.ext_getElem?_iff]
  simp only [rdma_replies host pages hok, dram_replies host pages fun c hc => (hok c hc).1]
  constructor
  · intro h n c hc
    have hn := h n
    simp only [hc, Option.map_some, Option.some.injEq] at hn
    exact (expected_eq_iff _ _ _ (hmoves hc)).mp hn
  · intro h n
    cases hc : calls[n]? with
    | none => simp only [Option.map_none]
    | some c =>
      simp only [Option.map_some, Option.some.injEq]
      exact (expected_eq_iff _ _ _ (hmoves hc)).mpr (h n c hc)

/-- If all transfers succeed, the two builds reply the same exactly if every load
finds the contents of its own node among those last stored in its slot. -/
theorem builds_agree_iff (host : Host) (zero : α) (pages : ℕ → Page α) (calls : List (Call α))
    (hok : ∀ c ∈ calls, c.outcome.Succeeds) :
    ∃ fuel₀, ∀ fuel, fuel₀ ≤ fuel →
      ((Rdma.backend host fuel).replies (initScheduler host.debugVm)
          (.init, .zeroed zero pages) calls =
        (Dram.backend host).replies (initScheduler host.debugVm) (.init, .zeroed zero pages) calls ↔
      ∀ n c, calls[n]? = some c → Reads host.debugVm (calls.take n) c →
        SlotAgrees zero (calls.take n) c.pageid) := by
  obtain ⟨fuel₀, hdelay⟩ := exists_fuel calls
  refine ⟨fuel₀, fun fuel hfuel => ?_⟩
  apply replies_eq_iff
  intro c hc
  exact ⟨hok c hc, (hdelay c hc).trans_le hfuel⟩

/-- A page that is stored and loaded. -/
def storedOnce : List (Call ℕ) := [⟨.store, 0, 0, 0, 1, prompt⟩, ⟨.load, 0, 0, 1, 0, prompt⟩]

theorem builds_agree_once : ∃ fuel₀, ∀ fuel, fuel₀ ≤ fuel →
    (Rdma.backend ⟨6, true⟩ fuel).replies (initScheduler true)
        (.init, .zeroed 0 fun _ => ⟨0, false, false, false⟩) storedOnce =
      (Dram.backend ⟨6, true⟩).replies (initScheduler true)
        (.init, .zeroed 0 fun _ => ⟨0, false, false, false⟩) storedOnce := by
  have hok : ∀ c ∈ storedOnce, c.outcome.Succeeds := by
    intro c hc
    simp only [storedOnce, List.mem_cons, List.not_mem_nil, or_false] at hc
    rcases hc with rfl | rfl
    all_goals exact prompt_succeeds
  obtain ⟨fuel₀, h⟩ := builds_agree_iff ⟨6, true⟩ 0 (fun _ => ⟨0, false, false, false⟩) storedOnce hok
  refine ⟨fuel₀, fun fuel hfuel => (h fuel hfuel).mpr ?_⟩
  intro n c hc hreads
  rcases n with _ | _ | n
  · cases hc
    cases hreads.1
  · cases hc
    decide
  · cases hc

/-- A page of each node is stored, and the first one is loaded. -/
def storedOnBoth : List (Call ℕ) :=
  [⟨.store, 0, 0, 0, 1, prompt⟩, ⟨.store, 0, 1, 1, 2, prompt⟩, ⟨.load, 0, 0, 2, 0, prompt⟩]

theorem storedOnBoth_calls : ∀ c ∈ storedOnBoth,
    c.pageid < remoteBufSize >>> pageShift ∧ c.outcome.Succeeds ∧ c.outcome.delay = 0 := by
  intro c hc
  simp only [storedOnBoth, List.mem_cons, List.not_mem_nil, or_false] at hc
  rcases hc with rfl | rfl | rfl
  all_goals exact ⟨by decide, prompt_succeeds, rfl⟩

/-- Both pages have slot 0 of their node: the load of page 0 gives its contents in
the one build, and those of page 1 in the other. -/
theorem builds_agree_counterexample :
    ((Rdma.backend ⟨6, true⟩ 1).replies (initScheduler true)
      (.init, .zeroed 0 fun _ => ⟨0, false, false, false⟩) storedOnBoth)[2]? =
        some ⟨.ok 0, some 1⟩ ∧
    ((Dram.backend ⟨6, true⟩).replies (initScheduler true)
      (.init, .zeroed 0 fun _ => ⟨0, false, false, false⟩) storedOnBoth)[2]? =
        some ⟨.ok 0, some 2⟩ ∧
    ¬ ∀ (host : Host) (pages : ℕ → Page ℕ) (calls : List (Call ℕ)),
      (∀ c ∈ calls, c.pageid < remoteBufSize >>> pageShift ∧ c.outcome.Succeeds) →
        ∃ fuel₀, ∀ fuel, fuel₀ ≤ fuel →
          (Rdma.backend host fuel).replies (initScheduler host.debugVm)
              (.init, .zeroed 0 pages) calls =
            (Dram.backend host).replies (initScheduler host.debugVm)
              (.init, .zeroed 0 pages) calls := by
  have hok : ∀ fuel, 0 < fuel →
      ∀ c ∈ storedOnBoth, c.outcome.Succeeds ∧ c.outcome.delay < fuel := by
    intro fuel hfuel c hc
    obtain ⟨-, hs, hdelay⟩ := storedOnBoth_calls c hc
    exact ⟨hs, by omega⟩
  refine ⟨?_, ?_, ?_⟩
  · rw [rdma_replies ⟨6, true⟩ _ (hok 1 one_pos)]
    rfl
  · rw [dram_replies ⟨6, true⟩ _ fun c hc => (hok 1 one_pos c hc).1]
    rfl
  · intro h
    have hcalls : ∀ c ∈ storedOnBoth, c.pageid < remoteBufSize >>> pageShift ∧ c.outcome.Succeeds :=
      fun c hc => ⟨(storedOnBoth_calls c hc).1, (storedOnBoth_calls c hc).2.1⟩
    obtain ⟨fuel₀, hall⟩ := h ⟨6, true⟩ (fun _ => ⟨0, false, false, false⟩) storedOnBoth hcalls
    have hreplies := (replies_eq_iff _ (hok (fuel₀ + 1) (by omega))).mp (hall (fuel₀ + 1) (by omega))
    have hagrees := hreplies 2 _ rfl (by decide)
    revert hagrees
    decide

end Multiswap
