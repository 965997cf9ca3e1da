import Multiswap.Lib.FirstCome
import Multiswap.Scheduler.Relocate

/-!
# Sequential use

Called one at a time, `sswap_scheduler_write` frees a slot, searches for the
lowest free one and records it; all this amounts to an append-only table of
pageids for each node, a page's slot being its index in the table.
-/

namespace Multiswap

open FirstCome (register table rank)

variable {cfg : Config} {ps : List ℕ} {s : Scheduler} {p q t x : ℕ}

/-- Calls of `sswap_scheduler_write` one at a time: what they return, and the
state in the end. -/
def schedulerWrites (cfg : Config) : List ℕ → Scheduler → Except Fault (List (ℕ × ℕ) × Scheduler)
  | [], s => .ok ([], s)
  | p :: ps, s => do
    let (roffset, type, s) ← sswapSchedulerWrite cfg false p s
    let (places, s) ← schedulerWrites cfg ps s
    return ((roffset, type) :: places, s)

theorem schedulerWrites_concat (cfg : Config) (ps : List ℕ) (p : ℕ) (s : Scheduler) :
    schedulerWrites cfg (ps ++ [p]) s = (do
      let (places, s) ← schedulerWrites cfg ps s
      let (roffset, type, s) ← sswapSchedulerWrite cfg false p s
      return (places ++ [(roffset, type)], s)) := by
  induction ps generalizing s with
  | nil =>
    simp only [List.nil_append, schedulerWrites, bind, Except.bind, pure, Except.pure]
  | cons q ps ih =>
    simp only [List.cons_append, schedulerWrites, bind, Except.bind, pure, Except.pure, ih]
    cases sswapSchedulerWrite cfg false q s with
    | error e => rfl
    | ok r =>
      simp only
      cases schedulerWrites cfg ps r.2.2 with
      | error e => rfl
      | ok r' =>
        simp only
        cases sswapSchedulerWrite cfg false p r'.2 <;> rfl

/-! ## The abstract tables -/

/-- The table of node `t` after writes of `ps`. -/
def nodeTable (ps : List ℕ) (t : ℕ) : List ℕ := table (ps.filter (· % 2 = t))

/-- The slot that a page has after writes of `ps`. -/
def slotOf (ps : List ℕ) (p : ℕ) : ℕ := (nodeTable ps (p % 2)).idxOf p

theorem nodeTable_concat_self (ps : List ℕ) (p : ℕ) :
    nodeTable (ps ++ [p]) (p % 2) = register (nodeTable ps (p % 2)) p := by
  rw [nodeTable, List.filter_append, List.filter_singleton, decide_eq_true rfl]
  exact FirstCome.table_concat

theorem nodeTable_concat_of_ne (ps : List ℕ) (h : p % 2 ≠ t) :
    nodeTable (ps ++ [p]) t = nodeTable ps t := by
  rw [nodeTable, List.filter_append, List.filter_singleton, decide_eq_false h, cond_false,
    List.append_nil, nodeTable]

theorem mem_nodeTable : q ∈ nodeTable ps t ↔ q ∈ ps ∧ q % 2 = t := by
  rw [nodeTable, FirstCome.mem_table, List.mem_filter, decide_eq_true_eq]

theorem nodup_nodeTable (ps : List ℕ) (t : ℕ) : (nodeTable ps t).Nodup := FirstCome.nodup_table _

/-- A table is no longer than there are pageids. -/
theorem length_nodeTable_le {n : ℕ} (h : ∀ p ∈ ps, p < n) (t : ℕ) : (nodeTable ps t).length ≤ n := by
  rw [nodeTable, FirstCome.length_table, ← Finset.card_range n]
  apply Finset.card_le_card
  intro q hq
  rw [List.mem_toFinset, List.mem_filter] at hq
  exact Finset.mem_range.mpr (h q hq.1)

/-- A later write moves no page. -/
theorem slotOf_concat_of_mem (h : q ∈ ps) (p : ℕ) : slotOf (ps ++ [p]) q = slotOf ps q := by
  by_cases hp : p % 2 = q % 2
  · rw [slotOf, ← hp, nodeTable_concat_self, FirstCome.idxOf_register, hp, slotOf]
    exact mem_nodeTable.mpr ⟨h, hp.symm⟩
  · rw [slotOf, nodeTable_concat_of_ne ps hp, slotOf]

theorem slotOf_concat_self (ps : List ℕ) (p : ℕ) : slotOf (ps ++ [p]) p = slotOf ps p := by
  rw [slotOf, nodeTable_concat_self, FirstCome.idxOf_register_self, slotOf]

/-- A page that is written has a slot below the number of pageids. -/
theorem slotOf_lt {n : ℕ} (h : ∀ q ∈ ps, q < n) (hp : p < n) : slotOf ps p < n := by
  have hmem : p ∈ nodeTable (ps ++ [p]) (p % 2) := mem_nodeTable.mpr ⟨by simp, rfl⟩
  have hall : ∀ q ∈ ps ++ [p], q < n := by
    intro q hq
    rcases List.mem_append.mp hq with hq | hq
    · exact h q hq
    · rwa [List.mem_singleton.mp hq]
  calc slotOf ps p = slotOf (ps ++ [p]) p := (slotOf_concat_self ps p).symm
    _ < (nodeTable (ps ++ [p]) (p % 2)).length := List.idxOf_lt_length_of_mem hmem
    _ ≤ n := length_nodeTable_le hall _

/-! ## Refinement -/

/-- The scheduler records what the tables hold after writes of `ps`. -/
structure Refines (cfg : Config) (ps : List ℕ) (s : Scheduler) : Prop where
  consistent : s.Consistent cfg
  mapping : ∀ p, s.mappingOf p = if p ∈ ps then some (p % 2, slotOf ps p) else none

namespace Refines

theorem mapping_of_mem (h : Refines cfg ps s) (hp : p ∈ ps) :
    s.mappingOf p = some (p % 2, slotOf ps p) := by
  rw [h.mapping, if_pos hp]

theorem mapping_of_notMem (h : Refines cfg ps s) (hp : p ∉ ps) : s.mappingOf p = none := by
  rw [h.mapping, if_neg hp]

/-- The slots in use are those of the table. -/
theorem bit_iff (h : Refines cfg ps s) (hx : cfg.HasSlot t x) :
    s.bit t x = true ↔ x < (nodeTable ps t).length := by
  rw [h.consistent.owned t x hx]
  constructor
  · rintro ⟨q, hq⟩
    rw [h.mapping] at hq
    split at hq
    · next hmem =>
      simp only [Option.some.injEq, Prod.mk.injEq] at hq
      obtain ⟨rfl, rfl⟩ := hq
      exact List.idxOf_lt_length_of_mem (mem_nodeTable.mpr ⟨hmem, rfl⟩)
    · cases hq
  · intro hlt
    obtain ⟨hmem, hmod⟩ := mem_nodeTable.mp (List.getElem_mem hlt)
    refine ⟨(nodeTable ps t)[x], ?_⟩
    rw [h.mapping_of_mem hmem, slotOf, hmod, (nodup_nodeTable ps t).idxOf_getElem x hlt]

/-- With the old slot of a page released, its index is the least free slot. -/
theorem isLeast (h : Refines cfg ps s) (hroom : cfg.HasSlot (p % 2) (slotOf ps p)) :
    IsLeast (freeSlots cfg (s.released p) (p % 2)) (slotOf ps p) := by
  constructor
  · refine ⟨hroom, ?_⟩
    rw [released_bit]
    split
    · rfl
    · next hm =>
      have hnot : p ∉ ps := fun hp => hm (h.mapping_of_mem hp)
      rw [Bool.eq_false_iff, ne_eq, h.bit_iff hroom, slotOf,
        List.idxOf_eq_length fun hmem => hnot (mem_nodeTable.mp hmem).1]
      exact lt_irrefl _
  · rintro y ⟨hslot, hbit⟩
    by_contra hlt
    have hset : s.bit (p % 2) y = true :=
      (h.bit_iff hslot).mpr ((not_le.mp hlt).trans_le List.idxOf_le_length)
    rw [released_bit, hset] at hbit
    split at hbit
    · next hm =>
      rw [h.mapping] at hm
      split at hm
      · simp only [Option.some.injEq, Prod.mk.injEq, true_and] at hm
        exact hlt hm.le
      · cases hm
    · cases hbit

/-- A call is a request to the table of the page's node. -/
theorem step (h : Refines cfg ps s) (hr : cfg.InRange p)
    (hroom : cfg.HasSlot (p % 2) (slotOf ps p)) (hsmall : slotOf ps p < 2 ^ 32) :
    ∃ s', sswapSchedulerWrite cfg false p s = .ok (slotOf ps p <<< pageShift, p % 2, s') ∧
      Refines cfg (ps ++ [p]) s' := by
  have hleast := h.isLeast hroom
  have hoffset : u64 (u32 (slotOf ps p) <<< pageShift) = slotOf ps p <<< pageShift := by
    rw [u32_of_lt hsmall, slotOffset_eq (hsmall.trans (by decide)), pageShift_eq, Nat.shiftLeft_eq]
  have hadd := sswapAddMapping_least h.consistent hr hleast
  rw [hoffset] at hadd
  refine ⟨_, sswapSchedulerWrite_first hadd rfl, ?_⟩
  constructor
  · exact relocated_consistent h.consistent hr hleast.1 hsmall
  · intro q
    rw [relocated_mappingOf _ _ _ _ (Nat.mod_lt p (by decide)), u32_of_lt hsmall]
    by_cases hqp : q = p
    · subst hqp
      rw [if_pos rfl, if_pos (by simp), slotOf_concat_self]
    · rw [if_neg hqp, h.mapping]
      by_cases hq : q ∈ ps
      · rw [if_pos hq, if_pos (List.mem_append_left _ hq), slotOf_concat_of_mem hq]
      · rw [if_neg hq, if_neg (by simp [hq, hqp])]

end Refines

theorem refines_init (cfg : Config) : Refines cfg [] .init where
  consistent := .init cfg
  mapping _ := rfl

/-- Where a page is put: the offset of its slot, and the node of its parity. -/
def placeOf (ps : List ℕ) (p : ℕ) : ℕ × ℕ :=
  (rank (ps.filter (· % 2 = p % 2)) p <<< pageShift, p % 2)

theorem placeOf_eq (ps : List ℕ) (p : ℕ) : placeOf ps p = (slotOf ps p <<< pageShift, p % 2) := by
  rw [placeOf, slotOf, nodeTable, FirstCome.idxOf_table]

theorem placeOf_node_lt (ps : List ℕ) (p : ℕ) : (placeOf ps p).2 < 2 := Nat.mod_lt p (by decide)

/-- A page keeps its place. -/
theorem placeOf_append (h : p ∈ ps) (qs : List ℕ) : placeOf (ps ++ qs) p = placeOf ps p := by
  have hmem : p ∈ ps.filter (· % 2 = p % 2) := List.mem_filter.mpr ⟨h, decide_eq_true rfl⟩
  rw [placeOf, List.filter_append, FirstCome.rank_append hmem, placeOf]

/-- No two pages have one place. -/
theorem placeOf_inj (hq : q ∈ ps) (h : placeOf ps q = placeOf ps p) : q = p := by
  simp only [placeOf, Prod.mk.injEq] at h
  obtain ⟨hoffset, hmod⟩ := h
  have hmem : q ∈ ps.filter (· % 2 = p % 2) := List.mem_filter.mpr ⟨hq, decide_eq_true hmod⟩
  rw [hmod] at hoffset
  refine FirstCome.rank_inj hmem ?_
  simp only [pageShift_eq, Nat.shiftLeft_eq] at hoffset
  omega

theorem placeOf_concat_self (ps : List ℕ) (p : ℕ) : placeOf (ps ++ [p]) p = placeOf ps p := by
  rw [placeOf_eq, slotOf_concat_self, placeOf_eq]

/-! ## The shipped configuration -/

theorem initScheduler_hasSlot (debugVm : Bool) (ht : t < 2) (hx : x < remoteBufSize >>> pageShift) :
    (initScheduler debugVm).HasSlot t x := by
  have hx' : x < 2097152 := hx
  rw [hasSlot_iff, initScheduler_nrRemoteMaps]
  omega

namespace Refines

variable {debugVm : Bool}

/-- Every page in range has a slot on its node. -/
theorem slot_lt (h : Refines (initScheduler debugVm) ps s) (hp : (initScheduler debugVm).InRange p) :
    slotOf ps p < remoteBufSize >>> pageShift := by
  apply slotOf_lt
  · intro q hq
    exact (initScheduler_inRange debugVm q).mp (h.consistent.inRange q _ (h.mapping_of_mem hq))
  · exact (initScheduler_inRange debugVm p).mp hp

theorem offset_lt (h : Refines (initScheduler debugVm) ps s)
    (hp : (initScheduler debugVm).InRange p) : (placeOf ps p).1 < remoteBufSize := by
  have hslot : slotOf ps p < 2097152 := h.slot_lt hp
  rw [placeOf_eq]
  dsimp only
  rw [pageShift_eq, Nat.shiftLeft_eq, remoteBufSize_eq]
  omega

theorem write (h : Refines (initScheduler debugVm) ps s) (hp : (initScheduler debugVm).InRange p) :
    ∃ s', sswapSchedulerWrite (initScheduler debugVm) false p s =
        .ok ((placeOf ps p).1, (placeOf ps p).2, s') ∧
      Refines (initScheduler debugVm) (ps ++ [p]) s' := by
  have hslot := h.slot_lt hp
  rw [placeOf_eq]
  exact h.step hp (initScheduler_hasSlot debugVm (Nat.mod_lt p (by decide)) hslot)
    (hslot.trans (by decide))

theorem read (h : Refines (initScheduler debugVm) ps s) (hp : p ∈ ps) :
    sswapSchedulerRead (initScheduler debugVm) p s = .ok (placeOf ps p) := by
  have hr := h.consistent.inRange p _ (h.mapping_of_mem hp)
  have hslot : slotOf ps p < 2 ^ 52 := (h.slot_lt hr).trans (by decide)
  rw [sswapSchedulerRead, sswapGetMapping_some hr (h.mapping_of_mem hp), placeOf_eq,
    slotOffset_eq hslot, pageShift_eq, Nat.shiftLeft_eq]

end Refines

/-- A run of calls fills the tables, and every call returns the place in them. -/
theorem schedulerWrites_refines (debugVm : Bool) (ps : List ℕ)
    (hps : ∀ p ∈ ps, p < remoteBufSize >>> pageShift) :
    ∃ s, schedulerWrites (initScheduler debugVm) ps .init = .ok (ps.map (placeOf ps), s) ∧
      Refines (initScheduler debugVm) ps s := by
  induction ps using List.reverseRecOn with
  | nil => exact ⟨_, rfl, refines_init _⟩
  | append_singleton ps p ih =>
    have hlt : ∀ q ∈ ps, q < remoteBufSize >>> pageShift :=
      fun q hq => hps q (List.mem_append_left _ hq)
    have hp := (initScheduler_inRange debugVm p).mpr (hps p (by simp))
    obtain ⟨s, hrun, href⟩ := ih hlt
    obtain ⟨s', hw, href'⟩ := href.write hp
    refine ⟨s', ?_, href'⟩
    have hold : ps.map (placeOf (ps ++ [p])) = ps.map (placeOf ps) :=
      List.map_congr_left fun q hq => placeOf_append hq [p]
    simp only [schedulerWrites_concat, hrun, hw, bind, Except.bind, pure, Except.pure,
      List.map_append, hold, List.map_cons, List.map_nil, placeOf_concat_self]

/-- After every call of a run: each call has returned the place of its page, the
slots in use are the first ones of their node, as many as it has pages, and a read
gives the same place. -/
theorem schedulerWrites_first_come (debugVm : Bool) (ps : List ℕ)
    (hps : ∀ p ∈ ps, p < remoteBufSize >>> pageShift) (n : ℕ) :
    ∃ s, schedulerWrites (initScheduler debugVm) (ps.take n) .init =
        .ok ((ps.take n).map (placeOf ps), s) ∧
      (∀ t x, (initScheduler debugVm).HasSlot t x →
        (s.bit t x = true ↔ x < ((ps.take n).filter (· % 2 = t)).toFinset.card)) ∧
      ∀ p ∈ ps.take n, sswapSchedulerRead (initScheduler debugVm) p s = .ok (placeOf ps p) := by
  have hlt : ∀ p ∈ ps.take n, p < remoteBufSize >>> pageShift :=
    fun p hp => hps p (List.mem_of_mem_take hp)
  have hplace : ∀ p ∈ ps.take n, placeOf ps p = placeOf (ps.take n) p := by
    intro p hp
    rw [← placeOf_append hp (ps.drop n), List.take_append_drop]
  obtain ⟨s, hrun, href⟩ := schedulerWrites_refines debugVm (ps.take n) hlt
  refine ⟨s, ?_, ?_, ?_⟩
  · rw [hrun, List.map_congr_left hplace]
  · intro t x hx
    rw [href.bit_iff hx, nodeTable, FirstCome.length_table]
  · intro p hp
    rw [href.read hp, hplace p hp]

/-- Three pages, one of them written twice. -/
theorem schedulerWrites_first_come_three :
    ∃ s, schedulerWrites (initScheduler false) [4, 7, 4, 6] .init =
        .ok ([(0, 0), (0, 1), (0, 0), (4096, 0)], s) ∧
      sswapSchedulerRead (initScheduler false) 4 s = .ok (0, 0) := by
  obtain ⟨s, hrun, -, hread⟩ := schedulerWrites_first_come false [4, 7, 4, 6] (by decide) 4
  exact ⟨s, hrun, hread 4 (by decide)⟩

end Multiswap
