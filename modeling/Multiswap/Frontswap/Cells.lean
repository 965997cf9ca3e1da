import Multiswap.Frontswap.Runs
import Multiswap.Lib.CellStore
import Multiswap.Rdma.Success
import Multiswap.Scheduler.Sequential

/-!
# Backends that keep cells

Both backends keep pages in cells, and differ in what addresses a cell. What a
call replies depends on the stores before it and on these addresses only.
-/

namespace Multiswap

open CellStore (last memory)
open Rdma (Host Outcome)
open StateError (finalState)

variable {α β ι : Type} [DecidableEq ι]

/-- The call returns: its request is allocated, mapped and posted, or it is a read
whose page cannot be mapped. -/
def Rdma.Outcome.Returns (o : Outcome) : FrontswapOp → Prop
  | .store => o.Completes
  | .load => o.Completes ∨ o.alloc = true ∧ o.dma = none

theorem Rdma.Outcome.Succeeds.returns {o : Outcome} (h : o.Succeeds) (op : FrontswapOp) :
    o.Returns op := by
  cases op with
  | store => exact h.1
  | load => exact .inl h.1

/-- What a backend promises for calls that return (`ok`): a write that moves its page
puts it into the cell that `addr` gives for offset and node, a read takes it from there. -/
structure Backend.Cells (B : Backend α β) (ok : FrontswapOp → Outcome → Prop)
    (addr : ℕ × ℕ → ι) where
  ready : β → Prop
  cell : β → ι → α
  setPage_ready : ∀ {b page pg}, ready b → ready (B.setPage b page pg)
  setPage_cell : ∀ b page pg, cell (B.setPage b page pg) = cell b
  setPage_page : ∀ b page pg, B.pages (B.setPage b page pg) page = pg
  write : ∀ {o b page roffset dev}, ok .store o → ready b → roffset < remoteBufSize →
    dev < maxRemoteNodes → (B.pages b page).swapCache = true →
    ∃ b', B.rdmaWrite o page roffset dev b = .ok 0 b' ∧ ready b' ∧ cell b' =
      if o.Moves then Function.update (cell b) (addr (roffset, dev)) (B.pages b page).contents
      else cell b
  read : ∀ {o b page roffset dev}, ok .load o → ready b → roffset < remoteBufSize →
    dev < maxRemoteNodes → Rdma.ToBeRead (B.pages b page) →
    ∃ ret b', B.rdmaReadSync o page roffset dev b = .ok ret b' ∧ (ret ≠ 0 ↔ o.dma = none) ∧
      ready b' ∧ cell b' = cell b ∧ (B.pages b' page).contents =
        if o.Moves then cell b (addr (roffset, dev)) else (B.pages b page).contents

/-- The RDMA backend keeps a cell for every offset of every node. -/
def Rdma.cells (host : Host) (fuel : ℕ) :
    (Rdma.backend host fuel : Backend α (Rdma.Client α)).Cells
      (fun op o => o.Returns op ∧ o.delay < fuel) id where
  ready := Rdma.Idle
  cell c i := c.remote i.2 i.1
  setPage_ready h := h
  setPage_cell _ _ _ := rfl
  setPage_page b page pg := by simp [backend, Client.setPage]
  write := by
    rintro o b page roffset dev ⟨ho, hfuel⟩ hidle hr hdev hpage
    obtain ⟨b', hrun, hidle', hremote⟩ :=
      Rdma.sswapRdmaWrite_idle host hidle ho hfuel hr hdev hpage
    refine ⟨b', hrun, hidle', ?_⟩
    funext i
    obtain ⟨x, t⟩ := i
    rw [hremote]
    by_cases hs : o.status = .success
    · rw [if_pos hs, if_pos (ho.moves_iff.mpr hs)]
      by_cases ht : t = dev
      · subst ht
        by_cases hx : x = roffset
        · subst hx
          simp [backend]
        · simp [backend, hx]
      · simp [backend, ht]
    · rw [if_neg hs, if_neg (mt ho.moves_iff.mp hs)]
  read := by
    rintro o b page roffset dev ⟨ho, hfuel⟩ hidle hr hdev hpage
    obtain ho | ⟨halloc, hdma⟩ := ho
    · obtain ⟨b', hrun, hidle', hremote, hcontents⟩ :=
        Rdma.sswapRdmaReadSync_idle host hidle ho hfuel hr hdev hpage
      refine ⟨0, b', hrun, by simp [ho.mapped], hidle', by rw [hremote], ?_⟩
      simp only [ho.moves_iff]
      exact hcontents
    · obtain ⟨b', hrun, hidle', hremote, hpages⟩ :=
        Rdma.sswapRdmaReadSync_idle_unmapped host hidle halloc hdma hr hdev hpage
      refine ⟨-Rdma.enomem, b', hrun, by simp [hdma, Rdma.enomem], hidle', by rw [hremote], ?_⟩
      rw [if_neg fun h => h.1 hdma]
      exact congrArg Page.contents (congrFun hpages page)

/-- The DRAM backend keeps a cell for every offset. -/
def Dram.cells (host : Host) :
    (Dram.backend host : Backend α (Dram.Client α)).Cells (fun _ o => o.Succeeds) Prod.fst where
  ready _ := True
  cell c i := c.drambuf i
  setPage_ready h := h
  setPage_cell _ _ _ := rfl
  setPage_page b page pg := by simp [backend]
  write := by
    intro o b page roffset dev ho _ hr _ _
    refine ⟨_, sswapRdmaWrite_ok hr dev, trivial, ?_⟩
    rw [if_pos ho.moves]
    rfl
  read := by
    intro o b page roffset dev ho _ hr _ hpage
    refine ⟨0, _, sswapRdmaReadSync_ok hr hpage.swapCache hpage.locked hpage.stale dev,
      by simp [ho.1.mapped], trivial, rfl, ?_⟩
    rw [if_pos ho.moves]
    simp [backend]

/-! ## What a run replies -/

/-- The pageids in range that a run stores. -/
def stored (calls : List (Call α)) : List ℕ :=
  calls.filterMap fun c =>
    if c.op = .store ∧ c.pageid < remoteBufSize >>> pageShift then some c.pageid else none

/-- The stores in range of a run that move their page: the pageids and the contents. -/
def stores (calls : List (Call α)) : List (ℕ × α) :=
  calls.filterMap fun c =>
    if (c.op = .store ∧ c.pageid < remoteBufSize >>> pageShift) ∧ c.outcome.Moves then
      some (c.pageid, c.contents)
    else none

/-- The offset and the node that a load reads at; the null entry gives `(0, 0)`. -/
def readPlace (calls : List (Call α)) (p : ℕ) : ℕ × ℕ :=
  if p ∈ stored calls then placeOf (stored calls) p else (0, 0)

/-- The cells after a run. -/
def cellsAfter (zero : α) (addr : ℕ × ℕ → ι) (calls : List (Call α)) : ι → α :=
  memory zero (fun p => addr (placeOf (stored calls) p)) (stores calls)

/-- What a load replies: the contents of the cell that it reads, those that its page
had if it moves nothing, or why it stops. -/
def expectedLoad (debugVm : Bool) (zero : α) (addr : ℕ × ℕ → ι) (before : List (Call α))
    (c : Call α) : Reply α :=
  if c.pageid < remoteBufSize >>> pageShift then
    if c.pageid ∈ stored before ∨ debugVm = false then
      ⟨.ok (if c.outcome.dma = none then -1 else 0), some (if c.outcome.Moves then
        cellsAfter zero addr before (addr (readPlace before c.pageid)) else c.contents)⟩
    else ⟨.error (.fault .bug), some c.contents⟩
  else ⟨.error (.fault (.remoteSpaces (c.pageid >>> remoteAddressSpaceShift))), some c.contents⟩

/-- What a call replies after the calls `before`. -/
def expected (debugVm : Bool) (zero : α) (addr : ℕ × ℕ → ι) (before : List (Call α)) (c : Call α) :
    Reply α :=
  match c.op with
  | .store =>
    if c.pageid < remoteBufSize >>> pageShift then ⟨.ok 0, none⟩
    else ⟨.error (.fault (.remoteSpaces (c.pageid >>> remoteAddressSpaceShift))), none⟩
  | .load => expectedLoad debugVm zero addr before c

section Runs

variable {calls : List (Call α)} {c : Call α} {p : ℕ}

theorem stored_store (hop : c.op = .store) (hr : c.pageid < remoteBufSize >>> pageShift) :
    stored (calls ++ [c]) = stored calls ++ [c.pageid] := by
  simp only [stored, List.filterMap_append, List.filterMap_cons, if_pos (And.intro hop hr),
    List.filterMap_nil]

theorem stored_other (h : ¬ (c.op = .store ∧ c.pageid < remoteBufSize >>> pageShift)) :
    stored (calls ++ [c]) = stored calls := by
  simp only [stored, List.filterMap_append, List.filterMap_cons, if_neg h, List.filterMap_nil,
    List.append_nil]

theorem stores_store (hop : c.op = .store) (hr : c.pageid < remoteBufSize >>> pageShift)
    (hmoves : c.outcome.Moves) : stores (calls ++ [c]) = stores calls ++ [(c.pageid, c.contents)] := by
  have hc : (c.op = .store ∧ c.pageid < remoteBufSize >>> pageShift) ∧ c.outcome.Moves :=
    ⟨⟨hop, hr⟩, hmoves⟩
  simp only [stores, List.filterMap_append, List.filterMap_cons, if_pos hc, List.filterMap_nil]

theorem stores_other
    (h : ¬ ((c.op = .store ∧ c.pageid < remoteBufSize >>> pageShift) ∧ c.outcome.Moves)) :
    stores (calls ++ [c]) = stores calls := by
  simp only [stores, List.filterMap_append, List.filterMap_cons, if_neg h, List.filterMap_nil,
    List.append_nil]

theorem mem_stored_of_stores {w : ℕ × α} (h : w ∈ stores calls) : w.1 ∈ stored calls := by
  simp only [stores, stored, List.mem_filterMap, Option.ite_none_right_eq_some,
    Option.some.injEq] at h ⊢
  obtain ⟨c, hc, ⟨hstore, -⟩, rfl⟩ := h
  exact ⟨c, hc, hstore, rfl⟩

/-- The cells of the stores so far do not depend on the pageid stored next. -/
theorem memory_stored_concat (zero : α) (addr : ℕ × ℕ → ι) (p : ℕ) :
    memory zero (fun q => addr (placeOf (stored calls ++ [p]) q)) (stores calls) =
      cellsAfter zero addr calls := by
  apply CellStore.memory_congr
  intro w hw
  rw [placeOf_append (mem_stored_of_stores hw)]

/-- A store that moves its page writes the cell of the page. -/
theorem cellsAfter_store (zero : α) (addr : ℕ × ℕ → ι) (hop : c.op = .store)
    (hr : c.pageid < remoteBufSize >>> pageShift) :
    cellsAfter zero addr (calls ++ [c]) = if c.outcome.Moves then
        Function.update (cellsAfter zero addr calls) (addr (placeOf (stored calls) c.pageid))
          c.contents
      else cellsAfter zero addr calls := by
  rw [cellsAfter, stored_store hop hr]
  split
  · next hmoves =>
    rw [stores_store hop hr hmoves, CellStore.memory_concat, memory_stored_concat,
      placeOf_concat_self]
  · next hmoves =>
    rw [stores_other fun h => hmoves h.2, memory_stored_concat]

theorem cellsAfter_other (zero : α) (addr : ℕ × ℕ → ι)
    (h : ¬ (c.op = .store ∧ c.pageid < remoteBufSize >>> pageShift)) :
    cellsAfter zero addr (calls ++ [c]) = cellsAfter zero addr calls := by
  rw [cellsAfter, stored_other h, stores_other fun hc => h hc.1]
  rfl

theorem mem_stored : p ∈ stored calls ↔
    ∃ c ∈ calls, c.op = .store ∧ c.pageid = p ∧ p < remoteBufSize >>> pageShift := by
  simp only [stored, List.mem_filterMap, Option.ite_none_right_eq_some, Option.some.injEq]
  constructor
  · rintro ⟨c, hc, ⟨hop, hr⟩, rfl⟩
    exact ⟨c, hc, hop, rfl, hr⟩
  · rintro ⟨c, hc, hop, rfl, hr⟩
    exact ⟨c, hc, ⟨hop, hr⟩, rfl⟩

/-- If offset and node address the cells, that of a stored page has its last contents. -/
theorem cellsAfter_place (zero : α) (hp : p ∈ stored calls) :
    cellsAfter zero id calls (readPlace calls p) = last zero (· = p) (stores calls) := by
  rw [readPlace, if_pos hp]
  show memory zero (placeOf (stored calls)) (stores calls) (placeOf (stored calls) p) = _
  apply CellStore.memory_of_injOn
  intro w hw hplace
  exact placeOf_inj (mem_stored_of_stores hw) hplace

end Runs

/-! ## Simulation -/

section Simulation

variable {B : Backend α β} {ok : FrontswapOp → Outcome → Prop} {addr : ℕ × ℕ → ι} {C : B.Cells ok addr}
  {debugVm : Bool} {zero : α} {before calls : List (Call α)} {c : Call α} {st : Scheduler × β}

/-- A state of scheduler and backend after the calls `before`. -/
structure Sim (C : B.Cells ok addr) (debugVm : Bool) (zero : α) (before : List (Call α))
    (st : Scheduler × β) : Prop where
  refines : Refines (initScheduler debugVm) (stored before) st.1
  ready : C.ready st.2
  cells : C.cell st.2 = cellsAfter zero addr before

theorem Sim.init {b : β} (hready : C.ready b) (hcell : C.cell b = fun _ => zero) :
    Sim C debugVm zero [] (Scheduler.init, b) where
  refines := refines_init _
  ready := hready
  cells := hcell

/-- A call that changes no cell and no mapping. -/
theorem Sim.other (h : Sim C debugVm zero before st)
    (hc : ¬ (c.op = .store ∧ c.pageid < remoteBufSize >>> pageShift)) {b : β} (hready : C.ready b)
    (hcell : C.cell b = C.cell st.2) : Sim C debugVm zero (before ++ [c]) (st.1, b) where
  refines := by
    rw [stored_other hc]
    exact h.refines
  ready := hready
  cells := by rw [hcell, h.cells, cellsAfter_other zero addr hc]

/-- A store in range. -/
theorem Sim.store (h : Sim C debugVm zero before st) (hok : ok .store c.outcome) (hop : c.op = .store)
    (hr : c.pageid < remoteBufSize >>> pageShift) :
    ∃ st', B.call (initScheduler debugVm) st c = (⟨.ok 0, none⟩, st') ∧
      Sim C debugVm zero (before ++ [c]) st' := by
  have hrange := (initScheduler_inRange debugVm c.pageid).mpr hr
  obtain ⟨s', hw, href⟩ := h.refines.write hrange
  have hpage := C.setPage_page st.2 c.page c.pageIn
  obtain ⟨b', hrun, hready, hcell⟩ := C.write hok (C.setPage_ready h.ready)
    (h.refines.offset_lt hrange) (placeOf_node_lt (stored before) c.pageid) (congrArg Page.swapCache hpage)
  refine ⟨(s', b'), ?_, ?_⟩
  · simp only [Backend.call, hop, sswapStore, hw, hrun, afterTransfer, resultCode, finalState]
    rfl
  · constructor
    · rw [stored_store hop hr]
      exact href
    · exact hready
    · rw [hcell, hpage, C.setPage_cell, h.cells, cellsAfter_store zero addr hop hr]
      rfl

/-- A load that reads a cell. -/
theorem Sim.load (h : Sim C debugVm zero before st) (hok : ok .load c.outcome) (hop : c.op = .load)
    (hr : c.pageid < remoteBufSize >>> pageShift)
    (hread : c.pageid ∈ stored before ∨ debugVm = false) :
    ∃ b', B.call (initScheduler debugVm) st c =
        (expectedLoad debugVm zero addr before c, (st.1, b')) ∧
      C.ready b' ∧ C.cell b' = C.cell st.2 := by
  have hplace : sswapSchedulerRead (initScheduler debugVm) c.pageid st.1 =
      .ok (readPlace before c.pageid) := by
    rw [readPlace]
    split
    · next hmem => exact h.refines.read hmem
    · next hmem =>
      rw [sswapSchedulerRead, sswapGetMapping_none ((initScheduler_inRange debugVm _).mpr hr)
        (h.refines.mapping_of_notMem hmem)]
      exact if_neg (by simp [hread.resolve_left hmem, initScheduler])
  have hin : (readPlace before c.pageid).1 < remoteBufSize ∧ (readPlace before c.pageid).2 < 2 := by
    rw [readPlace]
    split
    · exact ⟨h.refines.offset_lt ((initScheduler_inRange debugVm _).mpr hr), placeOf_node_lt _ _⟩
    · exact ⟨by decide, by decide⟩
  have hpage := C.setPage_page st.2 c.page c.pageIn
  have hread' : Rdma.ToBeRead (B.pages (B.setPage st.2 c.page c.pageIn) c.page) := by
    rw [hpage]
    exact ⟨rfl, rfl, by simp [Call.pageIn, hop]⟩
  obtain ⟨ret, b', hrun, hret, hready, hcell, hcontents⟩ :=
    C.read hok (C.setPage_ready h.ready) hin.1 hin.2 hread'
  have hcode : (if ret ≠ 0 then (-1 : ℤ) else 0) = if c.outcome.dma = none then -1 else 0 :=
    if_congr hret rfl rfl
  refine ⟨b', ?_, hready, ?_⟩
  · simp only [Backend.call, hop, sswapLoad, hplace, hrun, afterTransfer, hcode, resultCode, finalState,
      hcontents, hpage, C.setPage_cell, h.cells, expectedLoad, if_pos hr, if_pos hread]
    rfl
  · rw [hcell, C.setPage_cell]

/-- A store that the scheduler stops. -/
theorem call_store_stopped {f : Fault} (hop : c.op = .store)
    (hw : sswapSchedulerWrite (initScheduler debugVm) false c.pageid st.1 = .error f) :
    B.call (initScheduler debugVm) st c =
      (⟨.error (.fault f), none⟩, (st.1, B.setPage st.2 c.page c.pageIn)) := by
  simp only [Backend.call, hop, sswapStore, hw]
  rfl

/-- A load that the scheduler stops. -/
theorem call_load_stopped {f : Fault} (C : B.Cells ok addr) (hop : c.op = .load)
    (hread : sswapSchedulerRead (initScheduler debugVm) c.pageid st.1 = .error f) :
    B.call (initScheduler debugVm) st c =
      (⟨.error (.fault f), some c.contents⟩, (st.1, B.setPage st.2 c.page c.pageIn)) := by
  simp only [Backend.call, hop, sswapLoad, hread, resultCode, finalState, C.setPage_page, Call.pageIn]

/-- A call replies what is expected after the calls before it. -/
theorem Sim.call (h : Sim C debugVm zero before st) (hok : ok c.op c.outcome) :
    (B.call (initScheduler debugVm) st c).1 = expected debugVm zero addr before c ∧
      Sim C debugVm zero (before ++ [c]) (B.call (initScheduler debugVm) st c).2 := by
  have hstop : ¬ (c.op = .store ∧ c.pageid < remoteBufSize >>> pageShift) →
      Sim C debugVm zero (before ++ [c]) (st.1, B.setPage st.2 c.page c.pageIn) :=
    fun hc => h.other hc (C.setPage_ready h.ready) (C.setPage_cell _ _ _)
  by_cases hr : c.pageid < remoteBufSize >>> pageShift
  · cases hop : c.op with
    | store =>
      obtain ⟨st', hcall, hsim⟩ := h.store (hop ▸ hok) hop hr
      simp only [hcall, expected, hop, if_pos hr]
      exact ⟨trivial, hsim⟩
    | load =>
      by_cases hread : c.pageid ∈ stored before ∨ debugVm = false
      · obtain ⟨b', hcall, hready, hcell⟩ := h.load (hop ▸ hok) hop hr hread
        simp only [hcall, expected, hop]
        exact ⟨trivial, h.other (by simp [hop]) hready hcell⟩
      · have hbug : sswapSchedulerRead (initScheduler debugVm) c.pageid st.1 = .error .bug := by
          rw [sswapSchedulerRead, sswapGetMapping_none ((initScheduler_inRange debugVm _).mpr hr)
            (h.refines.mapping_of_notMem (not_or.mp hread).1)]
          exact if_pos (by simpa [initScheduler] using (not_or.mp hread).2)
        simp only [call_load_stopped C hop hbug, expected, hop, expectedLoad, if_pos hr, if_neg hread]
        exact ⟨trivial, hstop (by simp [hop])⟩
  · have hrange : ¬ (initScheduler debugVm).InRange c.pageid :=
      mt (initScheduler_inRange debugVm c.pageid).mp hr
    cases hop : c.op with
    | store =>
      have hw : sswapSchedulerWrite (initScheduler debugVm) false c.pageid st.1 =
          .error (.remoteSpaces (c.pageid >>> remoteAddressSpaceShift)) :=
        sswapSchedulerWrite_error (sswapAddMapping_outOfRange hrange)
      simp only [call_store_stopped hop hw, expected, hop, if_neg hr]
      exact ⟨trivial, hstop (fun hc => hr hc.2)⟩
    | load =>
      have hread : sswapSchedulerRead (initScheduler debugVm) c.pageid st.1 =
          .error (.remoteSpaces (c.pageid >>> remoteAddressSpaceShift)) := by
        simp only [sswapSchedulerRead, sswapGetMapping, spaceOf_error hrange, bind, Except.bind]
      simp only [call_load_stopped C hop hread, expected, hop, expectedLoad, if_neg hr]
      exact ⟨trivial, hstop (fun hc => hr hc.2)⟩

/-- The state after a run. -/
theorem Sim.after (h : Sim C debugVm zero before st) (hok : ∀ c ∈ calls, ok c.op c.outcome) :
    Sim C debugVm zero (before ++ calls) (B.after (initScheduler debugVm) st calls) := by
  induction calls generalizing before st with
  | nil => rwa [List.append_nil]
  | cons c calls ih =>
    have hstep := (h.call (hok c List.mem_cons_self)).2
    have hrest := ih hstep fun c' hc' => hok c' (List.mem_cons_of_mem c hc')
    rwa [List.append_assoc] at hrest

/-- The replies of a run. -/
theorem Sim.replies (h : Sim C debugVm zero before st) (hok : ∀ c ∈ calls, ok c.op c.outcome) (n : ℕ) :
    (B.replies (initScheduler debugVm) st calls)[n]? =
      calls[n]?.map (expected debugVm zero addr (before ++ calls.take n)) := by
  induction calls generalizing before st n with
  | nil => rfl
  | cons c calls ih =>
    obtain ⟨hreply, hstep⟩ := h.call (hok c List.mem_cons_self)
    cases n with
    | zero =>
      rw [Backend.replies, hreply]
      simp
    | succ n =>
      have hrest := ih hstep (fun c' hc' => hok c' (List.mem_cons_of_mem c hc')) n
      rw [Backend.replies, List.getElem?_cons_succ, hrest]
      simp

end Simulation

/-- Some fuel is enough for every call of a run. -/
theorem exists_fuel (calls : List (Call α)) : ∃ fuel₀, ∀ c ∈ calls, c.outcome.delay < fuel₀ := by
  induction calls with
  | nil => exact ⟨0, by simp⟩
  | cons c calls ih =>
    obtain ⟨fuel₀, h⟩ := ih
    refine ⟨fuel₀ + c.outcome.delay + 1, fun c' hc' => ?_⟩
    rcases List.mem_cons.mp hc' with rfl | hc'
    · omega
    · have := h c' hc'
      omega

/-- Every step succeeds, and the completion is there at the first poll. -/
def prompt : Outcome := ⟨0, true, some 4096, 0, .success, 0⟩

theorem prompt_succeeds : prompt.Succeeds := ⟨⟨rfl, ⟨4096, rfl, by decide⟩, rfl⟩, rfl⟩

end Multiswap
