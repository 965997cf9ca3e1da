import Multiswap.Frontswap.Cells

/-!
# Swap areas

`sswap_store` and `sswap_load` do not use the number of the swap area: areas
share the pageids, and a load delivers what any area stored last.
-/

namespace Multiswap

open CellStore (last)
open Rdma (Host Outcome)

variable {α : Type} {calls : List (Call α)} {c : Call α} {fuel : ℕ}

/-- The calls of one area. -/
def ofArea (t : ℕ) (calls : List (Call α)) : List (Call α) := calls.filter (·.type = t)

theorem mem_ofArea {t : ℕ} : c ∈ ofArea t calls ↔ c ∈ calls ∧ c.type = t := by
  rw [ofArea, List.mem_filter, decide_eq_true_eq]

theorem ofArea_split (before rest : List (Call α)) (c : Call α) :
    ofArea c.type (before ++ c :: rest) = ofArea c.type before ++ c :: ofArea c.type rest := by
  simp only [ofArea, List.filter_append, List.filter_cons, decide_true, if_true]

/-- The area of a call has stored its pageid before. -/
def PreviouslyStored (before : List (Call α)) (c : Call α) : Prop :=
  ∃ d ∈ before, d.op = .store ∧ d.type = c.type ∧ d.pageid = c.pageid

/-- A load of a stored page, after the calls before it in a run. -/
theorem loaded_eq (host : Host) (zero : α) (pages : ℕ → Page α) (before rest : List (Call α))
    (hop : c.op = .load) (hprev : ∃ d ∈ before, d.op = .store ∧ d.pageid = c.pageid)
    (hok : ∀ d ∈ before ++ c :: rest, d.outcome.Returns d.op ∧ d.outcome.delay < fuel) :
    ((Rdma.backend host fuel).replies (initScheduler host.debugVm) (.init, .zeroed zero pages)
      (before ++ c :: rest))[before.length]? =
        some (if c.pageid < remoteBufSize >>> pageShift then
          ⟨.ok (if c.outcome.dma = none then -1 else 0), some (if c.outcome.Moves then
            last zero (· = c.pageid) (stores before) else c.contents)⟩
        else ⟨.error (.fault (.remoteSpaces (c.pageid >>> remoteAddressSpaceShift))),
          some c.contents⟩) := by
  have hsim : Sim (Rdma.cells host fuel) host.debugVm zero [] (.init, .zeroed zero pages) :=
    .init (fun _ _ => rfl) rfl
  rw [hsim.replies hok, List.getElem?_append_right le_rfl, Nat.sub_self, List.getElem?_cons_zero,
    List.take_left, List.nil_append, Option.map_some]
  simp only [expected, hop, expectedLoad]
  split
  · next hr =>
    obtain ⟨d, hd, hstore, hpage⟩ := hprev
    have hmem : c.pageid ∈ stored before := mem_stored.mpr ⟨d, hd, hstore, hpage, hr⟩
    rw [if_pos (.inl hmem), id, cellsAfter_place zero hmem]
  · rfl

/-- What a load of a page that its area has stored delivers does not depend on the
other areas exactly if the last store that moved a page to the pageid, by any area,
has the contents of the last such store by its own. -/
theorem areas_independent_iff (host : Host) (zero : α) (pages : ℕ → Page α)
    (before rest : List (Call α)) (c : Call α) (hop : c.op = .load)
    (hprev : PreviouslyStored before c)
    (hok : ∀ d ∈ before ++ c :: rest, d.outcome.Returns d.op) :
    ∃ fuel₀, ∀ fuel, fuel₀ ≤ fuel →
      (((Rdma.backend host fuel).replies (initScheduler host.debugVm) (.init, .zeroed zero pages)
          (before ++ c :: rest))[before.length]? =
        ((Rdma.backend host fuel).replies (initScheduler host.debugVm) (.init, .zeroed zero pages)
          (ofArea c.type (before ++ c :: rest)))[(ofArea c.type before).length]? ↔
      (c.pageid < remoteBufSize >>> pageShift → c.outcome.Moves →
        last zero (· = c.pageid) (stores before) =
          last zero (· = c.pageid) (stores (ofArea c.type before)))) := by
  obtain ⟨fuel₀, hdelay⟩ := exists_fuel (before ++ c :: rest)
  refine ⟨fuel₀, fun fuel hfuel => ?_⟩
  have hall : ∀ d ∈ before ++ c :: rest, d.outcome.Returns d.op ∧ d.outcome.delay < fuel :=
    fun d hd => ⟨hok d hd, (hdelay d hd).trans_le hfuel⟩
  obtain ⟨d, hd, hstore, htype, hpage⟩ := hprev
  have hown : ∀ d ∈ ofArea c.type before ++ c :: ofArea c.type rest,
      d.outcome.Returns d.op ∧ d.outcome.delay < fuel := by
    intro d hd
    rw [← ofArea_split] at hd
    exact hall d (mem_ofArea.mp hd).1
  rw [ofArea_split, loaded_eq host zero pages before rest hop ⟨d, hd, hstore, hpage⟩ hall,
    loaded_eq host zero pages (ofArea c.type before) (ofArea c.type rest) hop
      ⟨d, mem_ofArea.mpr ⟨hd, htype⟩, hstore, hpage⟩ hown]
  by_cases hr : c.pageid < remoteBufSize >>> pageShift
  · by_cases hmoves : c.outcome.Moves
    · simp only [hr, hmoves, if_true, Option.some.injEq, Reply.mk.injEq, true_and, forall_const]
    · simp only [hr, hmoves, if_false, false_implies, implies_true]
  · simp only [hr, if_false, false_implies]

/-- A load of pageid 0 for area 0. -/
def loadZero : Call ℕ := ⟨.load, 0, 0, 2, 0, prompt⟩

/-- Areas 0 and 1 store a page each, under the pageids `p` and `q`. -/
def twoAreas (p q : ℕ) : List (Call ℕ) := [⟨.store, 0, p, 0, 1, prompt⟩, ⟨.store, 1, q, 1, 2, prompt⟩]

theorem twoAreas_calls (p q : ℕ) : ∀ c ∈ twoAreas p q ++ [loadZero],
    c.outcome.Succeeds ∧ c.outcome.delay = 0 := by
  intro c hc
  simp only [twoAreas, List.mem_append, List.mem_cons, List.not_mem_nil, or_false] at hc
  rcases hc with (rfl | rfl) | rfl
  all_goals exact ⟨prompt_succeeds, rfl⟩

theorem twoAreas_previouslyStored (q : ℕ) : PreviouslyStored (twoAreas 0 q) loadZero :=
  ⟨_, List.mem_cons_self, rfl, rfl, rfl⟩

theorem areas_independent_two : ∃ fuel₀, ∀ fuel, fuel₀ ≤ fuel →
    ((Rdma.backend ⟨6, true⟩ fuel).replies (initScheduler true)
        (.init, .zeroed 0 fun _ => ⟨0, false, false, false⟩) (twoAreas 0 1 ++ [loadZero]))[2]? =
      ((Rdma.backend ⟨6, true⟩ fuel).replies (initScheduler true)
        (.init, .zeroed 0 fun _ => ⟨0, false, false, false⟩)
        (ofArea 0 (twoAreas 0 1 ++ [loadZero])))[1]? := by
  obtain ⟨fuel₀, h⟩ := areas_independent_iff ⟨6, true⟩ 0 (fun _ => ⟨0, false, false, false⟩)
    (twoAreas 0 1) [] loadZero rfl (twoAreas_previouslyStored 1)
    fun c hc => (twoAreas_calls 0 1 c hc).1.returns c.op
  exact ⟨fuel₀, fun fuel hfuel => (h fuel hfuel).mpr (by decide)⟩

/-- Both areas store pageid 0: area 0 loads the page of area 1, and without the
calls of area 1 its own. -/
theorem areas_independent_counterexample :
    ((Rdma.backend ⟨6, true⟩ 1).replies (initScheduler true)
      (.init, .zeroed 0 fun _ => ⟨0, false, false, false⟩) (twoAreas 0 0 ++ [loadZero]))[2]? =
        some ⟨.ok 0, some 2⟩ ∧
    ((Rdma.backend ⟨6, true⟩ 1).replies (initScheduler true)
      (.init, .zeroed 0 fun _ => ⟨0, false, false, false⟩)
      (ofArea 0 (twoAreas 0 0 ++ [loadZero])))[1]? = some ⟨.ok 0, some 1⟩ ∧
    ¬ ∀ (host : Host) (pages : ℕ → Page ℕ) (before rest : List (Call ℕ)) (c : Call ℕ),
      c.op = .load → PreviouslyStored before c →
      (∀ d ∈ before ++ c :: rest, d.outcome.Returns d.op) →
      ∃ fuel₀, ∀ fuel, fuel₀ ≤ fuel →
        ((Rdma.backend host fuel).replies (initScheduler host.debugVm) (.init, .zeroed 0 pages)
            (before ++ c :: rest))[before.length]? =
          ((Rdma.backend host fuel).replies (initScheduler host.debugVm) (.init, .zeroed 0 pages)
            (ofArea c.type (before ++ c :: rest)))[(ofArea c.type before).length]? := by
  have hboth : ∀ fuel, 0 < fuel → ((Rdma.backend ⟨6, true⟩ fuel).replies (initScheduler true)
      (.init, .zeroed 0 fun _ => ⟨0, false, false, false⟩) (twoAreas 0 0 ++ [loadZero]))[2]? =
        some ⟨.ok 0, some 2⟩ := by
    intro fuel hfuel
    refine loaded_eq ⟨6, true⟩ 0 _ (twoAreas 0 0) [] rfl ⟨_, List.mem_cons_self, rfl, rfl⟩ ?_
    intro c hc
    obtain ⟨hs, hdelay⟩ := twoAreas_calls 0 0 c hc
    exact ⟨hs.returns c.op, by omega⟩
  have hown : ∀ fuel, 0 < fuel → ((Rdma.backend ⟨6, true⟩ fuel).replies (initScheduler true)
      (.init, .zeroed 0 fun _ => ⟨0, false, false, false⟩)
      (ofArea 0 (twoAreas 0 0 ++ [loadZero])))[1]? = some ⟨.ok 0, some 1⟩ := by
    intro fuel hfuel
    refine loaded_eq ⟨6, true⟩ 0 _ (ofArea 0 (twoAreas 0 0)) [] rfl
      ⟨_, List.mem_cons_self, rfl, rfl⟩ ?_
    intro c hc
    have hmem : c ∈ ofArea 0 (twoAreas 0 0 ++ [loadZero]) := hc
    obtain ⟨hs, hdelay⟩ := twoAreas_calls 0 0 c (mem_ofArea.mp hmem).1
    exact ⟨hs.returns c.op, by omega⟩
  refine ⟨hboth 1 one_pos, hown 1 one_pos, fun h => ?_⟩
  obtain ⟨fuel₀, hall⟩ := h ⟨6, true⟩ (fun _ => ⟨0, false, false, false⟩) (twoAreas 0 0) [] loadZero rfl
    (twoAreas_previouslyStored 0) fun c hc => (twoAreas_calls 0 0 c hc).1.returns c.op
  have heq := (hboth (fuel₀ + 1) (by omega)).symm.trans
    ((hall (fuel₀ + 1) (by omega)).trans (hown (fuel₀ + 1) (by omega)))
  simp at heq

end Multiswap
