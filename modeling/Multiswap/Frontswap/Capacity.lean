import Multiswap.Frontswap.Static

/-!
# Fixed places and scheduled places

The shipped build against the builds that place a page by its pageid: when their
replies are the same, and how many pages they keep on servers that have 4 GiB each.
-/

namespace Multiswap

open CellStore (last)
open Rdma (Host Outcome)

variable {α : Type} {zero : α} {before calls : List (Call α)} {c : Call α} {b : StaticBuild}
  {fuel p t : ℕ} {host : Host}

theorem StaticBuild.limit_eq (hb : b ≠ .useswap) : b.limit = remoteBufSize >>> pageShift := if_neg hb

/-- The replies of a build without the scheduler, one by one. -/
theorem getElem?_static_replies (hb : b ≠ .useswap) (host : Host) (zero : α) (pages : ℕ → Page α)
    (hword : ∀ c ∈ calls, c.pageid < 2 ^ 52)
    (hok : ∀ c ∈ calls, c.outcome.Returns c.op ∧ c.outcome.delay < fuel) (n : ℕ) :
    (Machine.replies ((Rdma.backend host fuel).staticCall b) (.zeroed zero pages) calls)[n]? =
      calls[n]?.map fun c => (Flat.call (remoteBufSize >>> pageShift)
        (CellStore.memory zero id (stores (calls.take n))) c).1 := by
  rw [rdma_static_replies b host zero pages hword hok, Machine.getElem?_replies,
    StaticBuild.limit_eq hb, flat_answered]

theorem getElem?_shipped_replies (host : Host) (zero : α) (pages : ℕ → Page α)
    (hok : ∀ c ∈ calls, c.outcome.Returns c.op ∧ c.outcome.delay < fuel) (n : ℕ) :
    ((Rdma.backend host fuel).replies (initScheduler host.debugVm) (.init, .zeroed zero pages) calls)[n]? =
      calls[n]?.map (expected host.debugVm zero id (calls.take n)) := by
  have hsim : Sim (Rdma.cells host fuel) host.debugVm zero [] (.init, .zeroed zero pages) :=
    .init (fun _ _ => rfl) rfl
  exact hsim.replies hok n

/-- The server of the node grants exactly the accesses inside its buffer, and
everything else succeeds. -/
def Rdma.Outcome.Granted (roffset : ℕ) (o : Outcome) : Prop :=
  o.Completes ∧ (o.status = .success ↔ roffset + pageSize ≤ Server.bufferSize)

theorem Rdma.Outcome.Granted.moves_iff {o : Outcome} {roffset : ℕ} (h : o.Granted roffset) :
    o.Moves ↔ roffset + pageSize ≤ Server.bufferSize := h.1.moves_iff.trans h.2

theorem Rdma.Outcome.Completes.returns {o : Outcome} (h : o.Completes) (op : FrontswapOp) :
    o.Returns op := by
  cases op with
  | store => exact h
  | load => exact .inl h

/-- What a run has stored: the pageids and the contents. -/
def written (calls : List (Call α)) : List (ℕ × α) :=
  calls.filterMap fun c => if c.op = .store then some (c.pageid, c.contents) else none

/-- A device that keeps the pages below `bound`: it accepts all pages, and a load of
another one leaves the page as it is. -/
def kept (zero : α) (bound : ℕ) (before : List (Call α)) (c : Call α) : Reply α :=
  match c.op with
  | .store => ⟨.ok 0, none⟩
  | .load => ⟨.ok 0,
      some (if c.pageid < bound then last zero (· = c.pageid) (written before) else c.contents)⟩

/-- If the stores of a pageid have moved their pages, the last of them counts. -/
theorem last_stores_eq (zero : α) (h : ∀ d ∈ before, d.op = .store → d.pageid = p →
    p < remoteBufSize >>> pageShift ∧ d.outcome.Moves) :
    last zero (· = p) (stores before) = last zero (· = p) (written before) := by
  induction before using List.reverseRecOn with
  | nil => rfl
  | append_singleton ds d ih =>
    have hrest := ih fun e he => h e (List.mem_append_left _ he)
    by_cases hop : d.op = .store
    · have hwritten : written (ds ++ [d]) = written ds ++ [(d.pageid, d.contents)] := by
        simp only [written, List.filterMap_append, List.filterMap_cons, if_pos hop,
          List.filterMap_nil]
      rw [hwritten, CellStore.last_concat]
      by_cases hp : d.pageid = p
      · obtain ⟨hr, hmoves⟩ := h d (by simp) hop hp
        rw [stores_store hop (hp ▸ hr) hmoves, CellStore.last_concat]
        simp only [hp, if_true]
      · rw [if_neg hp, ← hrest]
        by_cases hstore : (d.op = .store ∧ d.pageid < remoteBufSize >>> pageShift) ∧ d.outcome.Moves
        · rw [stores_store hop hstore.1.2 hstore.2, CellStore.last_concat, if_neg hp]
        · rw [stores_other hstore]
    · have hwritten : written (ds ++ [d]) = written ds := by
        simp only [written, List.filterMap_append, List.filterMap_cons, if_neg hop,
          List.filterMap_nil, List.append_nil]
      rw [stores_other fun hstore => hop hstore.1.1, hwritten, hrest]

/-- The pages in range of one parity fit into a server. -/
theorem length_nodeTable_le_half {ps : List ℕ} (h : ∀ q ∈ ps, q < remoteBufSize >>> pageShift) (t : ℕ) :
    (nodeTable ps t).length ≤ Server.bufferSize >>> pageShift := by
  rw [nodeTable, FirstCome.length_table, ← Finset.card_range (Server.bufferSize >>> pageShift)]
  apply Finset.card_le_card_of_injOn (· / 2)
  · intro q hq
    simp only [List.coe_toFinset, Set.mem_ofPred_eq, List.mem_filter, decide_eq_true_eq] at hq
    have hlt : q < 2097152 := h q hq.1
    simp only [Finset.coe_range, Set.mem_Iio, Server.bufferSize_eq, pageShift_eq,
      Nat.shiftRight_eq_div_pow]
    omega
  · intro q hq r hr heq
    simp only [List.coe_toFinset, Set.mem_ofPred_eq, List.mem_filter, decide_eq_true_eq] at hq hr heq
    omega

/-- Every place that the scheduler gives a page in range is inside the buffer. -/
theorem placeOf_inside (hp : p ∈ stored calls) : (placeOf (stored calls) p).1 + pageSize ≤ Server.bufferSize := by
  have hlt : slotOf (stored calls) p < Server.bufferSize >>> pageShift := by
    have hmem : p ∈ nodeTable (stored calls) (p % 2) := mem_nodeTable.mpr ⟨hp, rfl⟩
    refine (List.idxOf_lt_length_of_mem hmem).trans_le (length_nodeTable_le_half ?_ _)
    intro q hq
    obtain ⟨c, -, -, -, hr⟩ := mem_stored.mp hq
    exact hr
  have hslot : slotOf (stored calls) p < 1048576 := hlt
  rw [placeOf_eq]
  dsimp only
  rw [pageShift_eq, Nat.shiftLeft_eq, pageSize_eq, Server.bufferSize_eq]
  omega

theorem pageOffset_inside_iff (hp : p < 2 ^ 52) :
    pageOffset p + pageSize ≤ Server.bufferSize ↔ p < Server.bufferSize >>> pageShift := by
  rw [pageOffset_eq hp, show Server.bufferSize >>> pageShift = 1048576 from rfl, pageSize_eq,
    Server.bufferSize_eq]
  omega

/-- A page that is placed by its pageid is kept if its offset is inside the buffer. -/
theorem flat_kept (zero : α) (hr : c.pageid < remoteBufSize >>> pageShift)
    (hbefore : ∀ d ∈ before, d.pageid < remoteBufSize >>> pageShift ∧
      d.outcome.Granted (pageOffset d.pageid))
    (hc : c.outcome.Granted (pageOffset c.pageid)) :
    (Flat.call (remoteBufSize >>> pageShift) (CellStore.memory zero id (stores before)) c).1 =
      kept zero (Server.bufferSize >>> pageShift) before c := by
  have hword : ∀ {q}, q < remoteBufSize >>> pageShift → q < 2 ^ 52 := fun hq => hq.trans (by decide)
  cases hop : c.op with
  | store => simp only [Flat.call, kept, hop, hr, if_true]
  | load =>
    simp only [Flat.call, kept, hop, hr, if_true, hc.1.mapped, if_false, hc.moves_iff,
      pageOffset_inside_iff (hword hr)]
    split
    · next hlow =>
      have hlast : CellStore.memory zero id (stores before) c.pageid =
          last zero (· = c.pageid) (written before) := by
        apply last_stores_eq
        rintro d hd - hpage
        obtain ⟨hd, hgrant⟩ := hbefore d hd
        rw [hgrant.moves_iff, pageOffset_inside_iff (hword hd), hpage]
        exact ⟨hr, hlow⟩
      rw [hlast]
    · rfl

/-- The scheduler keeps every page that has been stored. -/
theorem expected_kept (debugVm : Bool) (zero : α) (hr : c.pageid < remoteBufSize >>> pageShift)
    (hbefore : ∀ d ∈ before, d.pageid < remoteBufSize >>> pageShift ∧ d.outcome.Moves)
    (hmoves : c.outcome.Moves) (hload : c.op = .load → c.pageid ∈ stored before) :
    expected debugVm zero id before c = kept zero (remoteBufSize >>> pageShift) before c := by
  cases hop : c.op with
  | store => simp only [expected, kept, hop, hr, if_true]
  | load =>
    have hmem := hload hop
    simp only [expected, expectedLoad, kept, hop, hr, if_true, hmem, true_or, hmoves, hmoves.1,
      if_false, id_eq, cellsAfter_place zero hmem]
    rw [last_stores_eq zero]
    rintro d hd - hpage
    exact ⟨hr, (hbefore d hd).2⟩

/-- On servers of 4 GiB, and where the kernel refuses nothing, a build that places pages by
their pageids loses all pages above the 4 GiB of one server, with no error; the shipped build
keeps the pages of the whole remote buffer. -/
theorem capacity (host : Host) (zero : α) (pages : ℕ → Page α) (calls : List (Call α))
    (hin : ∀ c ∈ calls, c.pageid < remoteBufSize >>> pageShift) :
    ∃ fuel₀, ∀ fuel, fuel₀ ≤ fuel →
      (∀ b : StaticBuild, b ≠ .useswap →
        (∀ c ∈ calls, c.outcome.Granted (b.place c.pageid).1) →
        ∀ n, (Machine.replies ((Rdma.backend host fuel).staticCall b) (.zeroed zero pages) calls)[n]? =
          calls[n]?.map (kept zero (Server.bufferSize >>> pageShift) (calls.take n))) ∧
      ((∀ c ∈ calls, c.outcome.Granted (placeOf (stored calls) c.pageid).1) →
        (∀ n c, calls[n]? = some c → c.op = .load → c.pageid ∈ stored (calls.take n)) →
        ∀ n, ((Rdma.backend host fuel).replies (initScheduler host.debugVm)
            (.init, .zeroed zero pages) calls)[n]? =
          calls[n]?.map (kept zero (remoteBufSize >>> pageShift) (calls.take n))) := by
  obtain ⟨fuel₀, hdelay⟩ := exists_fuel calls
  refine ⟨fuel₀, fun fuel hfuel => ⟨fun b hb hgrant n => ?_, fun hgrant hload n => ?_⟩⟩
  · have hall : ∀ c ∈ calls, c.outcome.Returns c.op ∧ c.outcome.delay < fuel :=
      fun c hc => ⟨(hgrant c hc).1.returns c.op, (hdelay c hc).trans_le hfuel⟩
    rw [getElem?_static_replies hb host zero pages (fun c hc => (hin c hc).trans (by decide)) hall]
    cases hc : calls[n]? with
    | none => rfl
    | some c =>
      have hmem := List.mem_of_getElem? hc
      rw [Option.map_some, Option.map_some, flat_kept zero (hin c hmem) _ (hgrant c hmem)]
      intro d hd
      have hd := List.mem_of_mem_take hd
      exact ⟨hin d hd, hgrant d hd⟩
  · have hall : ∀ c ∈ calls, c.outcome.Returns c.op ∧ c.outcome.delay < fuel :=
      fun c hc => ⟨(hgrant c hc).1.returns c.op, (hdelay c hc).trans_le hfuel⟩
    have hstored : ∀ c ∈ calls, c.pageid ∈ stored calls := by
      intro c hc
      cases hop : c.op with
      | store => exact mem_stored.mpr ⟨c, hc, hop, rfl, hin c hc⟩
      | load =>
        obtain ⟨n, hn⟩ := List.mem_iff_getElem?.mp hc
        obtain ⟨d, hd, hstore, hpage, hr⟩ := mem_stored.mp (hload n c hn hop)
        exact mem_stored.mpr ⟨d, List.mem_of_mem_take hd, hstore, hpage, hr⟩
    have hmoves : ∀ c ∈ calls, c.outcome.Moves :=
      fun c hc => (hgrant c hc).moves_iff.mpr (placeOf_inside (hstored c hc))
    rw [getElem?_shipped_replies host zero pages hall]
    cases hc : calls[n]? with
    | none => rfl
    | some c =>
      have hmem := List.mem_of_getElem? hc
      rw [Option.map_some, Option.map_some, expected_kept host.debugVm zero (hin c hmem) _
        (hmoves c hmem) (hload n c hc)]
      intro d hd
      have hd := List.mem_of_mem_take hd
      exact ⟨hin d hd, hmoves d hd⟩

/-- The first page above 4 GiB is stored and loaded. -/
def storedAbove (o : Outcome) : List (Call ℕ) :=
  [⟨.store, 0, 1048576, 0, 7, o⟩, ⟨.load, 0, 1048576, 1, 0, o⟩]

theorem storedAbove_calls {P : ℕ → Outcome → Prop} {o : Outcome} (h : P 1048576 o) :
    ∀ c ∈ storedAbove o, P c.pageid c.outcome := by
  intro c hc
  simp only [storedAbove, List.mem_cons, List.not_mem_nil, or_false] at hc
  rcases hc with rfl | rfl
  all_goals exact h

theorem capacity_above : ∃ fuel₀, ∀ fuel, fuel₀ ≤ fuel →
    (Machine.replies ((Rdma.backend ⟨6, true⟩ fuel).staticCall .fineGrained)
      (.zeroed 0 fun _ => ⟨0, false, false, false⟩)
      (storedAbove { prompt with status := .error 10 }))[1]? = some ⟨.ok 0, some 0⟩ ∧
    ((Rdma.backend ⟨6, true⟩ fuel).replies (initScheduler true)
      (.init, .zeroed 0 fun _ => ⟨0, false, false, false⟩) (storedAbove prompt))[1]? =
        some ⟨.ok 0, some 7⟩ := by
  obtain ⟨fuel₁, h₁⟩ := capacity ⟨6, true⟩ 0 (fun _ => ⟨0, false, false, false⟩)
    (storedAbove { prompt with status := .error 10 })
    (storedAbove_calls (P := fun p _ => p < remoteBufSize >>> pageShift) (by decide))
  obtain ⟨fuel₂, h₂⟩ := capacity ⟨6, true⟩ 0 (fun _ => ⟨0, false, false, false⟩) (storedAbove prompt)
    (storedAbove_calls (P := fun p _ => p < remoteBufSize >>> pageShift) (by decide))
  refine ⟨fuel₁ + fuel₂, fun fuel hfuel => ⟨?_, ?_⟩⟩
  · refine (h₁ fuel (by omega)).1 .fineGrained (by decide) (storedAbove_calls ?_
      (P := fun p o => o.Granted (StaticBuild.place .fineGrained p).1)) 1
    exact ⟨⟨rfl, ⟨4096, rfl, by decide⟩, rfl⟩, by decide⟩
  · refine (h₂ fuel (by omega)).2 (storedAbove_calls ?_
      (P := fun p o => o.Granted (placeOf (stored (storedAbove prompt)) p).1)) (fun n c hc hop => ?_) 1
    · exact ⟨prompt_succeeds.1, by decide⟩
    · rcases n with _ | _ | n
      · cases hc
        cases hop
      · cases hc
        decide
      · cases hc

end Multiswap
