import Multiswap.Concurrent.Defs
import Multiswap.Lib.FirstFit
import Multiswap.Scheduler.Invariant

/-!
# The ownership invariant

In every state that stores and loads reach, the bitmaps are owned slot by slot
(`RepInv`), and the stores of one parity form a concurrent first fit on the node
of that parity. The second fact bounds the slots by the number of pageids of the
parity, so that no search fails and the fallback is never taken.
-/

namespace Multiswap.Concurrent

open FirstFit (Place Good Taken)
open BitSearch (firstZero)

variable {α : Type} {cfg : Config} {n : ℕ} {s : State α} {p : ℕ}

/-- The pageids below `n` that `sswap_scheduler_write` sends to a node. -/
def pagesOf (n node : ℕ) : Finset ℕ := (Finset.range n).filter fun p => p % 2 = node

theorem mem_pagesOf {node : ℕ} : p ∈ pagesOf n node ↔ p < n ∧ p % 2 = node := by
  simp [pagesOf]

theorem card_pagesOf (n : ℕ) {node : ℕ} (h : node < 2) :
    (pagesOf n node).card = (n + 1 - node) / 2 := by
  induction n with
  | zero =>
    simp only [pagesOf, Finset.range_zero, Finset.filter_empty, Finset.card_empty]
    omega
  | succ n ih =>
    have hsplit : pagesOf (n + 1) node =
        if n % 2 = node then insert n (pagesOf n node) else pagesOf n node := by
      rw [pagesOf, Finset.range_add_one, Finset.filter_insert]
      rfl
    rw [hsplit]
    split
    · rw [Finset.card_insert_of_notMem (by simp [mem_pagesOf]), ih]
      omega
    · rw [ih]
      omega

/-- The nodes are large enough for the pageids of their parity, and every pageid
has an address space. -/
structure Fits (cfg : Config) (n : ℕ) : Prop where
  room : ∀ t, t < 2 → (pagesOf n t).card ≤ cfg.nrRemoteMaps t * remoteAddressSpacePages
  inRange : ∀ p, p < n → cfg.InRange p
  small : n ≤ remoteBufSize >>> pageShift

/-- What the place of a pageid in the first fit of its node is. -/
def State.place (s : State α) (p : ℕ) : Place :=
  match s.op p with
  | .storeProbe _ _ _ i _ => .seeking (i * remoteAddressSpacePages)
  | _ => ((s.held p).map fun l => Place.held l.2).getD .empty

/-- What a running call remembers agrees with what is recorded for its pageid;
no call has ever seen a full node. -/
def OpOk (mapping : Option (ℕ × ℕ)) : Op α → Prop
  | .idle => True
  | .storeLoad _ second flags => second = false ∧ flags.mappingFull = false
  | .storeClear _ second flags entry =>
    second = false ∧ flags.mappingFull = false ∧ entry ≠ 0 ∧ decodeEntry entry = mapping
  | .storeProbe _ second flags i offset =>
    second = false ∧ flags.mappingFull = false ∧ offset = i * remoteAddressSpacePages
  | .storeRecord _ second flags _ => second = false ∧ flags.mappingFull = false
  | .storeWrite _ type roffset => ∃ x, mapping = some (type, x) ∧ roffset = x * pageSize
  | .loadLookup => True
  | .loadRead type roffset => roffset < remoteBufSize ∧
    ∀ t x, mapping = some (t, x) → type = t ∧ roffset = x * pageSize

/-- The invariant of the running system. -/
structure Inv (cfg : Config) (n : ℕ) (s : State α) : Prop where
  rep : RepInv cfg s.held s.sched
  fit : ∀ t, t < 2 → Good (pagesOf n t) s.place
  ops : ∀ p, OpOk (s.sched.mappingOf p) (s.op p)
  parity : ∀ p t x, s.sched.mappingOf p = some (t, x) → t = p % 2
  quiet : ∀ p, n ≤ p → s.op p = .idle ∧ s.sched.mappingOf p = none

theorem place_eq_held {x : ℕ} : s.place p = .held x ↔ ∃ t, s.held p = some (t, x) := by
  unfold State.place
  split
  · next hop =>
    have : s.held p = none := by simp [State.held, State.recorded, hop, Op.reserved, Op.released]
    simp [this]
  · cases hh : s.held p with
    | none => simp
    | some l => obtain ⟨t, y⟩ := l; simp

theorem held_cases {t x : ℕ} (h : s.held p = some (t, x)) :
    (s.op p).reserved p = some (t, x) ∨ s.sched.mappingOf p = some (t, x) := by
  unfold State.held State.recorded at h
  cases hr : (s.op p).reserved p with
  | some l => rw [hr] at h; exact .inl h
  | none =>
    rw [hr, Option.none_or] at h
    split at h
    · cases h
    · exact .inr h

namespace Inv

/-- A pageid only ever owns slots of the node of its parity. -/
theorem held_parity (h : Inv cfg n s) {t x : ℕ} (hh : s.held p = some (t, x)) : p < n ∧ t = p % 2 := by
  rcases held_cases hh with hr | hm
  · cases hop : s.op p <;> simp only [hop, Op.reserved, reduceCtorEq] at hr
    next page second flags slot =>
    have hok := h.ops p
    rw [hop] at hok
    simp only [Option.some.injEq, Prod.mk.injEq] at hr
    refine ⟨?_, ?_⟩
    · by_contra hge
      rw [(h.quiet p (not_lt.mp hge)).1] at hop
      cases hop
    · rw [← hr.1, attemptNode, hok.1]
      simp
  · refine ⟨?_, h.parity p t x hm⟩
    by_contra hge
    rw [(h.quiet p (not_lt.mp hge)).2] at hm
    cases hm

/-- A slot is set in the bitmap exactly when its cell of the first fit is taken. -/
theorem taken_iff (h : Inv cfg n s) {t x : ℕ} (hslot : cfg.HasSlot t x) :
    Taken (pagesOf n t) s.place x ↔ s.sched.bit t x = true := by
  rw [h.rep.owned t x hslot]
  constructor
  · rintro ⟨p, hp, hx⟩
    obtain ⟨t', ht'⟩ := place_eq_held.mp hx
    obtain rfl := (h.held_parity ht').2
    rw [(mem_pagesOf.mp hp).2] at ht'
    exact ⟨p, ht'⟩
  · rintro ⟨p, hp⟩
    obtain ⟨hn, ht⟩ := h.held_parity hp
    exact ⟨p, mem_pagesOf.mpr ⟨hn, ht.symm⟩, place_eq_held.mpr ⟨t, hp⟩⟩

theorem init (remote : ℕ → ℕ → α) : Inv cfg n ⟨Scheduler.init, remote, fun _ => .idle⟩ where
  rep := (RepInv.init cfg).congr fun q => by simp [State.held, State.recorded, Op.reserved]
  fit t _ := Good.initial fun a _ => by
    simp [State.place, State.held, State.recorded, Op.reserved]
  ops _ := trivial
  parity p t x hx := by simp at hx
  quiet p _ := ⟨rfl, rfl⟩

end Inv

/-- Ownership after a step of the call of `p` that leaves other mappings alone. -/
theorem held_update {sched : Scheduler} {remote : ℕ → ℕ → α} {op : Op α}
    (hmap : ∀ q, q ≠ p → sched.mappingOf q = s.sched.mappingOf q) :
    State.held ⟨sched, remote, Function.update s.op p op⟩ =
      Function.update s.held p
        ((op.reserved p).or (if op.released then none else sched.mappingOf p)) := by
  funext q
  by_cases hq : q = p
  · subst hq
    simp [State.held, State.recorded]
  · simp [State.held, State.recorded, hq, hmap q hq]

theorem place_update {sched : Scheduler} {remote : ℕ → ℕ → α} {op : Op α}
    (hmap : ∀ q, q ≠ p → sched.mappingOf q = s.sched.mappingOf q) :
    State.place ⟨sched, remote, Function.update s.op p op⟩ =
      Function.update s.place p (State.place ⟨sched, remote, Function.update s.op p op⟩ p) := by
  funext q
  by_cases hq : q = p
  · subst hq
    simp
  · simp [State.place, held_update hmap, hq]

/-- One step of the call of `p` keeps the invariant if it keeps it at `p`. -/
theorem Inv.update (h : Inv cfg n s) (hp : p < n) {sched : Scheduler} {remote : ℕ → ℕ → α} {op : Op α}
    (hmap : ∀ q, q ≠ p → sched.mappingOf q = s.sched.mappingOf q)
    (hrep : RepInv cfg (Function.update s.held p
      ((op.reserved p).or (if op.released then none else sched.mappingOf p))) sched)
    (hfit : Good (pagesOf n (p % 2))
      (Function.update s.place p (State.place ⟨sched, remote, Function.update s.op p op⟩ p)))
    (hok : OpOk (sched.mappingOf p) op)
    (hpar : ∀ t x, sched.mappingOf p = some (t, x) → t = p % 2) :
    Inv cfg n ⟨sched, remote, Function.update s.op p op⟩ where
  rep := hrep.congr fun q => congrFun (held_update hmap) q
  fit t ht := by
    rw [place_update hmap]
    by_cases htp : t = p % 2
    · rw [htp]
      exact hfit
    · refine (h.fit t ht).congr fun q hq => Function.update_of_ne ?_ _ _
      rintro rfl
      exact htp (mem_pagesOf.mp hq).2.symm
  ops q := by
    by_cases hq : q = p
    · subst hq
      simpa using hok
    · simpa [hq, hmap q hq] using h.ops q
  parity q t x hx := by
    by_cases hq : q = p
    · subst hq
      exact hpar t x hx
    · exact h.parity q t x (by rwa [← hmap q hq])
  quiet q hq := by
    have hne : q ≠ p := by omega
    simpa [hne, hmap q hne] using h.quiet q hq

/-- A step that leaves the scheduler alone and keeps what the pageid owns. -/
theorem Inv.same (h : Inv cfg n s) (hp : p < n) (remote : ℕ → ℕ → α) {op : Op α}
    (hheld : (op.reserved p).or (if op.released then none else s.sched.mappingOf p) = s.held p)
    (hplace : State.place ⟨s.sched, remote, Function.update s.op p op⟩ p = s.place p)
    (hok : OpOk (s.sched.mappingOf p) op) :
    Inv cfg n ⟨s.sched, remote, Function.update s.op p op⟩ := by
  refine h.update hp (fun q _ => rfl) ?_ ?_ hok (h.parity p)
  · rw [hheld, Function.update_eq_self]
    exact h.rep
  · rw [hplace, Function.update_eq_self]
    exact h.fit _ (Nat.mod_lt _ (by decide))

namespace Inv

/-- An owned slot is below the number of pageids of its node. -/
theorem held_lt (h : Inv cfg n s) {t x : ℕ} (hh : s.held p = some (t, x)) :
    x < (pagesOf n t).card := by
  obtain ⟨hn, rfl⟩ := h.held_parity hh
  exact (h.fit _ (Nat.mod_lt _ (by decide))).lt p (mem_pagesOf.mpr ⟨hn, rfl⟩) x
    (place_eq_held.mpr ⟨_, hh⟩)

theorem held_small (h : Inv cfg n s) (hf : Fits cfg n) {t x : ℕ} (hh : s.held p = some (t, x)) :
    x < remoteBufSize >>> pageShift := by
  have hcard : (pagesOf n t).card ≤ n := by
    simpa [pagesOf] using Finset.card_filter_le (Finset.range n) fun p => p % 2 = t
  exact (h.held_lt hh).trans_le (hcard.trans hf.small)

theorem lt_of_running (h : Inv cfg n s) (hop : s.op p ≠ .idle) : p < n := by
  by_contra hge
  exact hop (h.quiet p (not_lt.mp hge)).1

variable {page : α} {second : Bool} {flags : RemoteMappingFlags}

/-- `xa_load` found nothing: the search starts without a slot to give back. -/
theorem enter (h : Inv cfg n s) (hp : p < n) (hop : s.op p = .storeLoad page second flags)
    (hnone : s.sched.mappingOf p = none) :
    Inv cfg n ⟨s.sched, s.remote, Function.update s.op p (.storeProbe page second flags 0 0)⟩ := by
  have hok := h.ops p
  rw [hop] at hok
  have hheld : s.held p = none := by
    simp [State.held, State.recorded, hop, Op.reserved, Op.released, hnone]
  refine h.update hp (fun q _ => rfl) ?_ ?_ ⟨hok.1, hok.2, by simp⟩ (h.parity p)
  · change RepInv cfg (Function.update s.held p none) s.sched
    rw [← hheld, Function.update_eq_self]
    exact h.rep
  · have hplace : State.place ⟨s.sched, s.remote,
        Function.update s.op p (.storeProbe page second flags 0 0)⟩ p = .seeking 0 := by
      simp [State.place]
    rw [hplace]
    refine (h.fit _ (Nat.mod_lt _ (by decide))).seek (mem_pagesOf.mpr ⟨hp, rfl⟩) fun k => ?_
    simp [State.place, hop, hheld]

/-- The locked release of the old slot. -/
theorem release (h : Inv cfg n s) (hp : p < n) {entry t x : ℕ}
    (hop : s.op p = .storeClear page second flags entry) (hmap : s.sched.mappingOf p = some (t, x)) :
    Inv cfg n ⟨s.sched.clearBit t (x / remoteAddressSpacePages) (x % remoteAddressSpacePages),
      s.remote, Function.update s.op p (.storeProbe page second flags 0 0)⟩ := by
  have hok := h.ops p
  rw [hop] at hok
  have hheld : s.held p = some (t, x) := by
    simp [State.held, State.recorded, hop, Op.reserved, Op.released, hmap]
  refine h.update hp (fun q _ => rfl) ?_ ?_ ⟨hok.1, hok.2.1, by simp⟩ (h.parity p)
  · exact h.rep.clearBit hheld
  · have hplace : State.place ⟨s.sched.clearBit t (x / remoteAddressSpacePages)
        (x % remoteAddressSpacePages), s.remote,
        Function.update s.op p (.storeProbe page second flags 0 0)⟩ p = .seeking 0 := by
      simp [State.place]
    rw [hplace]
    refine (h.fit _ (Nat.mod_lt _ (by decide))).seek (mem_pagesOf.mpr ⟨hp, rfl⟩) fun k => ?_
    simp [State.place, hop, hheld]

/-- A search is always inside the groups of its node. -/
theorem probe_lt (h : Inv cfg n s) (hf : Fits cfg n) (hp : p < n) {i offset : ℕ}
    (hop : s.op p = .storeProbe page second flags i offset) :
    i * remoteAddressSpacePages < n ∧ i < cfg.nrRemoteMaps (p % 2) := by
  have hplace : s.place p = .seeking (i * remoteAddressSpacePages) := by simp [State.place, hop]
  have ht : p % 2 < 2 := Nat.mod_lt _ (by decide)
  obtain ⟨c, hic, hc, _⟩ := (h.fit _ ht).exists_hole (mem_pagesOf.mpr ⟨hp, rfl⟩) hplace
  have hroom := hf.room _ ht
  have hcard : (pagesOf n (p % 2)).card ≤ n := by
    simpa [pagesOf] using Finset.card_filter_le (Finset.range n) fun q => q % 2 = p % 2
  simp only [remoteAddressSpacePages_eq] at hic hroom ⊢
  omega

/-- A round of the search that finds its group full. -/
theorem skip (h : Inv cfg n s) (hp : p < n) {i offset : ℕ}
    (hop : s.op p = .storeProbe page second flags i offset) (hi : i < cfg.nrRemoteMaps (p % 2))
    (hfull : (s.sched.remoteMap (p % 2) i).freePages = 0) :
    Inv cfg n ⟨s.sched, s.remote, Function.update s.op p
      (.storeProbe page second flags (i + 1) ((i + 1) * remoteAddressSpacePages))⟩ := by
  have hok := h.ops p
  rw [hop] at hok
  have ht : p % 2 < 2 := Nat.mod_lt _ (by decide)
  have hheld : s.held p = none := by
    simp [State.held, State.recorded, hop, Op.reserved, Op.released]
  refine h.update hp (fun q _ => rfl) ?_ ?_ ⟨hok.1, hok.2.1, rfl⟩ (h.parity p)
  · change RepInv cfg (Function.update s.held p none) s.sched
    rw [← hheld, Function.update_eq_self]
    exact h.rep
  · have hplace : State.place ⟨s.sched, s.remote, Function.update s.op p
        (.storeProbe page second flags (i + 1) ((i + 1) * remoteAddressSpacePages))⟩ p =
        .seeking ((i + 1) * remoteAddressSpacePages) := by simp [State.place]
    rw [hplace]
    refine (h.fit _ ht).skip (mem_pagesOf.mpr ⟨hp, rfl⟩) (i := i * remoteAddressSpacePages)
      (by simp [State.place, hop]) fun x hix hxi => ?_
    obtain ⟨b, rfl⟩ := Nat.exists_eq_add_of_le hix
    have hb : b < remoteAddressSpacePages := by
      simp only [remoteAddressSpacePages_eq] at hxi ⊢
      omega
    exact (h.taken_iff (hasSlot_group ht hi hb)).mpr ((h.rep.node ht).bits_of_full hi hfull hb)

/-- A round of the search that takes the lowest free slot of its group. -/
theorem take (h : Inv cfg n s) (hf : Fits cfg n) (hp : p < n) {i offset b : ℕ}
    (hop : s.op p = .storeProbe page second flags i offset) (hi : i < cfg.nrRemoteMaps (p % 2))
    (hfree : (s.sched.remoteMap (p % 2) i).freePages ≠ 0)
    (hb : b = firstZero (s.sched.remoteMap (p % 2) i).mapping remoteAddressSpacePages)
    {flags' : RemoteMappingFlags} (hflags : flags'.mappingFull = false) :
    Inv cfg n ⟨s.sched.setBit (p % 2) i b, s.remote, Function.update s.op p
      (.storeRecord page second flags' (i * remoteAddressSpacePages + b))⟩ := by
  have hok := h.ops p
  rw [hop] at hok
  have ht : p % 2 < 2 := Nat.mod_lt _ (by decide)
  have hheld : s.held p = none := by
    simp [State.held, State.recorded, hop, Op.reserved, Op.released]
  have hblt : b < remoteAddressSpacePages := hb ▸ (h.rep.node ht).firstZero_lt hi hfree
  have hbit : s.sched.bit (p % 2) (i * remoteAddressSpacePages + b) = false :=
    hb ▸ (h.rep.node ht).bit_firstZero hi hfree
  have hslot := hasSlot_group ht hi hblt
  have hnode : attemptNode p second = p % 2 := by simp [attemptNode, hok.1]
  refine h.update hp (fun q _ => rfl) ?_ ?_ ⟨hok.1, hflags⟩ (h.parity p)
  · simp only [Op.reserved, hnode, Option.some_or]
    exact h.rep.setBit hheld (hf.inRange p hp) ht hi hblt hbit
  · have hplace : State.place ⟨s.sched.setBit (p % 2) i b, s.remote, Function.update s.op p
        (.storeRecord page second flags' (i * remoteAddressSpacePages + b))⟩ p =
        .held (i * remoteAddressSpacePages + b) := by
      simp [State.place, State.held, Op.reserved]
    rw [hplace]
    refine (h.fit _ ht).take (mem_pagesOf.mpr ⟨hp, rfl⟩) (i := i * remoteAddressSpacePages)
      (by simp [State.place, hop]) (Nat.le_add_right _ _) ?_ fun x hix hxc => ?_
    · rw [h.taken_iff hslot, hbit]
      decide
    · obtain ⟨d, rfl⟩ := Nat.exists_eq_add_of_le hix
      have hd : d < b := by omega
      apply (h.taken_iff (hasSlot_group ht hi (hd.trans hblt))).mpr
      exact (h.rep.node ht).bit_below_firstZero hi hfree (hb ▸ hd)

/-- `xa_store` of the reserved slot. -/
theorem record (h : Inv cfg n s) (hf : Fits cfg n) (hp : p < n) {slot : ℕ}
    (hop : s.op p = .storeRecord page second flags slot) :
    Inv cfg n ⟨s.sched.xaStore (p >>> remoteAddressSpaceShift) p (slotEntry (p % 2) slot), s.remote,
      Function.update s.op p (.storeWrite page (p % 2) (slot * pageSize))⟩ := by
  have hok := h.ops p
  rw [hop] at hok
  have hheld : s.held p = some (p % 2, slot) := by
    simp [State.held, hop, Op.reserved, attemptNode, hok.1]
  have hsmall : slot < 2097152 := h.held_small hf hheld
  have hdecode : decodeEntry (slotEntry (p % 2) slot) = some (p % 2, slot) :=
    decodeEntry_slotEntry (by omega) (by omega)
  have hmap : (s.sched.xaStore (p >>> remoteAddressSpaceShift) p (slotEntry (p % 2) slot)).mappingOf p =
      some (p % 2, slot) := by
    rw [Scheduler.xaStore_mappingOf, if_pos rfl, hdecode]
  refine h.update hp (fun q hq => ?_) ?_ ?_ ?_ fun t x hx => ?_
  · rw [Scheduler.xaStore_mappingOf, if_neg hq]
  · have hrep := h.rep.xaStore (h.rep.hasSlot p _ _ hheld) (by omega : slot < 2 ^ 59) p
    apply hrep.congr
    intro q
    by_cases hq : q = p
    · subst hq
      simp [Op.reserved, Op.released, hmap, hheld]
    · simp [hq]
  · have hplace : State.place ⟨s.sched.xaStore (p >>> remoteAddressSpaceShift) p
        (slotEntry (p % 2) slot), s.remote,
        Function.update s.op p (.storeWrite page (p % 2) (slot * pageSize))⟩ p = s.place p := by
      simp [State.place, State.held, State.recorded, Op.reserved, Op.released, hop, hmap]
    rw [hplace, Function.update_eq_self]
    exact h.fit _ (Nat.mod_lt _ (by decide))
  · exact ⟨slot, hmap, rfl⟩
  · rw [hmap] at hx
    simp only [Option.some.injEq, Prod.mk.injEq] at hx
    exact hx.1.symm

end Inv

/-- What the running call of `p` can do next in a state that satisfies the
invariant: one constructor per atomic step, with what the step finds. -/
inductive Move (cfg : Config) (s : State α) (p : ℕ) : List (Event α) → State α → Prop
  | found {page : α} {second : Bool} {flags : RemoteMappingFlags} {entry : ℕ} :
      s.op p = .storeLoad page second flags → entry ≠ 0 → decodeEntry entry = s.sched.mappingOf p →
      Move cfg s p [] { s with op := Function.update s.op p (.storeClear page second flags entry) }
  | enter {page : α} {second : Bool} {flags : RemoteMappingFlags} :
      s.op p = .storeLoad page second flags → s.sched.mappingOf p = none →
      Move cfg s p [] { s with op := Function.update s.op p (.storeProbe page second flags 0 0) }
  | release {page : α} {second : Bool} {flags : RemoteMappingFlags} {entry t x : ℕ} :
      s.op p = .storeClear page second flags entry → s.sched.mappingOf p = some (t, x) →
      Move cfg s p [] ⟨s.sched.clearBit t (x / remoteAddressSpacePages) (x % remoteAddressSpacePages),
        s.remote, Function.update s.op p (.storeProbe page second flags 0 0)⟩
  | skip {page : α} {second : Bool} {flags : RemoteMappingFlags} {i offset : ℕ} :
      s.op p = .storeProbe page second flags i offset → i < cfg.nrRemoteMaps (p % 2) →
      (s.sched.remoteMap (p % 2) i).freePages = 0 →
      Move cfg s p [] ⟨s.sched, s.remote, Function.update s.op p
        (.storeProbe page second flags (i + 1) ((i + 1) * remoteAddressSpacePages))⟩
  | take {page : α} {second : Bool} {flags : RemoteMappingFlags} {i offset b : ℕ} :
      s.op p = .storeProbe page second flags i offset → i < cfg.nrRemoteMaps (p % 2) →
      (s.sched.remoteMap (p % 2) i).freePages ≠ 0 →
      b = firstZero (s.sched.remoteMap (p % 2) i).mapping remoteAddressSpacePages →
      Move cfg s p [] ⟨s.sched.setBit (p % 2) i b, s.remote, Function.update s.op p
        (.storeRecord page second { flags with mappingSuccess := true }
          (i * remoteAddressSpacePages + b))⟩
  | record {page : α} {second : Bool} {flags : RemoteMappingFlags} {slot : ℕ} :
      s.op p = .storeRecord page second flags slot →
      Move cfg s p [] ⟨s.sched.xaStore (p >>> remoteAddressSpaceShift) p (slotEntry (p % 2) slot),
        s.remote, Function.update s.op p (.storeWrite page (p % 2) (slot * pageSize))⟩
  | write {page : α} {type slot : ℕ} : s.op p = .storeWrite page type (slot * pageSize) →
      s.sched.mappingOf p = some (type, slot) →
      Move cfg s p [.stored p page 0] ⟨s.sched,
        Function.update s.remote type (Function.update (s.remote type) (slot * pageSize) page),
        Function.update s.op p .idle⟩
  | lookup {type roffset : ℕ} : s.op p = .loadLookup → roffset < remoteBufSize →
      (∀ t x, s.sched.mappingOf p = some (t, x) → type = t ∧ roffset = x * pageSize) →
      Move cfg s p [] { s with op := Function.update s.op p (.loadRead type roffset) }
  | read {type roffset : ℕ} : s.op p = .loadRead type roffset →
      Move cfg s p [.loaded p 0 (some (s.remote type roffset))]
        { s with op := Function.update s.op p .idle }

namespace Inv

variable {ev : List (Event α)} {s' : State α}

/-- A call's next step keeps the invariant. -/
theorem move (h : Inv cfg n s) (hf : Fits cfg n) (hp : p < n) (hm : Move cfg s p ev s') :
    Inv cfg n s' := by
  have hok := h.ops p
  cases hm with
  | found hop hne hentry =>
    rw [hop] at hok
    refine h.same hp s.remote ?_ ?_ ⟨hok.1, hok.2, hne, hentry⟩ <;>
      simp [State.place, State.held, State.recorded, Op.reserved, Op.released, hop]
  | enter hop hnone => exact h.enter hp hop hnone
  | release hop hmap => exact h.release hp hop hmap
  | skip hop hi hfull => exact h.skip hp hop hi hfull
  | take hop hi hfree hb =>
    rw [hop] at hok
    exact h.take hf hp hop hi hfree hb hok.2.1
  | record hop => exact h.record hf hp hop
  | write hop hmap =>
    refine h.same hp _ ?_ ?_ trivial <;>
      simp [State.place, State.held, State.recorded, Op.reserved, Op.released, hop]
  | lookup hop hlt hmap =>
    refine h.same hp s.remote ?_ ?_ ⟨hlt, hmap⟩ <;>
      simp [State.place, State.held, State.recorded, Op.reserved, Op.released, hop]
  | read hop =>
    refine h.same hp s.remote ?_ ?_ trivial <;>
      simp [State.place, State.held, State.recorded, Op.reserved, Op.released, hop]

end Inv

end Multiswap.Concurrent
