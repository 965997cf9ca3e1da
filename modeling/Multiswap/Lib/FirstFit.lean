import Mathlib.Algebra.Order.BigOperators.Group.Finset
import Mathlib.Order.Interval.Finset.Nat

/-!
# Concurrent first fit

A finite set of agents share the cells `0, 1, 2, …`. An agent holds at most one
cell. To get a new one it gives its cell back, starts a search at cell `0` and
either moves its cursor over cells that are all taken at that moment, or takes
the lowest free cell at or after its cursor. The search is not atomic: cells
that a cursor has passed may be given back and cells ahead of it may be taken
while it runs.

`Good` counts, for every cursor position, the searching agents at or beyond it
against the free cells at or beyond it among the first `A.card` cells. It is
kept by every step, so no search runs dry and every cell ever taken is below
the number of agents.
-/

namespace FirstFit

open scoped Classical

/-- What an agent has: nothing, a cell, or a search with its cursor. -/
inductive Place where
  | empty
  | held (c : ℕ)
  | seeking (i : ℕ)
  deriving DecidableEq

/-- The agent searches with its cursor at `i` or beyond. -/
def Place.SeeksFrom (i : ℕ) : Place → Prop
  | .seeking j => i ≤ j
  | _ => False

@[simp] theorem Place.seeksFrom_empty (i : ℕ) : ¬ Place.SeeksFrom i .empty := id
@[simp] theorem Place.seeksFrom_held (i c : ℕ) : ¬ Place.SeeksFrom i (.held c) := id
@[simp] theorem Place.seeksFrom_seeking (i j : ℕ) : Place.SeeksFrom i (.seeking j) ↔ i ≤ j :=
  Iff.rfl

variable {ι : Type*} (A : Finset ι) (place : ι → Place)

/-- Some agent holds the cell. -/
def Taken (c : ℕ) : Prop := ∃ a ∈ A, place a = .held c

/-- The agents that search at or beyond `i`. -/
noncomputable def seekers (i : ℕ) : Finset ι := A.filter fun a => (place a).SeeksFrom i

/-- The free cells at or beyond `i` among the first `A.card`. -/
noncomputable def holes (i : ℕ) : Finset ℕ := (Finset.Ico i A.card).filter fun c => ¬ Taken A place c

/-- No cell has two holders, held cells are below the number of agents, and
beyond every position there are at least as many holes as searching agents. -/
structure Good : Prop where
  inj : ∀ a ∈ A, ∀ b ∈ A, ∀ c, place a = .held c → place b = .held c → a = b
  lt : ∀ a ∈ A, ∀ c, place a = .held c → c < A.card
  room : ∀ i, (seekers A place i).card ≤ (holes A place i).card

variable {A place} {a : ι} {i j c : ℕ}

theorem mem_seekers : a ∈ seekers A place i ↔ a ∈ A ∧ (place a).SeeksFrom i := by
  simp [seekers]

theorem mem_holes : c ∈ holes A place i ↔ (i ≤ c ∧ c < A.card) ∧ ¬ Taken A place c := by
  simp [holes]

/-- Only the places of the agents matter. -/
theorem Good.congr {place' : ι → Place} (h : Good A place) (he : ∀ a ∈ A, place' a = place a) :
    Good A place' := by
  have htaken : ∀ c, Taken A place' c ↔ Taken A place c := fun c =>
    exists_congr fun a => and_congr_right fun ha => by rw [he a ha]
  refine ⟨fun a ha b hb c hac hbc => ?_, fun a ha c hac => ?_, fun i => ?_⟩
  · rw [he a ha] at hac
    rw [he b hb] at hbc
    exact h.inj a ha b hb c hac hbc
  · rw [he a ha] at hac
    exact h.lt a ha c hac
  · have hseek : seekers A place' i = seekers A place i :=
      Finset.filter_congr fun a ha => by rw [he a ha]
    have hholes : holes A place' i = holes A place i :=
      Finset.filter_congr fun c _ => by rw [htaken c]
    rw [hseek, hholes]
    exact h.room i

/-- Nobody searches and nobody holds a cell. -/
theorem Good.initial (h : ∀ a ∈ A, place a = .empty) : Good A place where
  inj a ha _ _ c hc := by rw [h a ha] at hc; cases hc
  lt a ha c hc := by rw [h a ha] at hc; cases hc
  room i := by
    have : seekers A place i = ∅ := by
      ext a
      simp only [mem_seekers, Finset.notMem_empty, iff_false, not_and]
      intro ha
      simp [h a ha]
    simp [this]

/-- The holes among the first `A.card` cells are as many as the agents without a cell. -/
theorem card_holes_zero (hinj : ∀ a ∈ A, ∀ b ∈ A, ∀ c, place a = .held c → place b = .held c → a = b)
    (hlt : ∀ a ∈ A, ∀ c, place a = .held c → c < A.card) :
    (holes A place 0).card = (A.filter fun a => ∀ c, place a ≠ .held c).card := by
  let holders := A.filter fun a => ∃ c, place a = .held c
  let taken := (Finset.range A.card).filter fun c => Taken A place c
  have hbij : holders.card = taken.card := by
    refine Finset.card_bij (fun a ha => (Finset.mem_filter.mp ha).2.choose) ?_ ?_ ?_
    · intro a ha
      obtain ⟨haA, hc⟩ := Finset.mem_filter.mp ha
      exact Finset.mem_filter.mpr
        ⟨Finset.mem_range.mpr (hlt a haA _ hc.choose_spec), a, haA, hc.choose_spec⟩
    · intro a ha b hb hab
      obtain ⟨haA, hca⟩ := Finset.mem_filter.mp ha
      obtain ⟨hbA, hcb⟩ := Finset.mem_filter.mp hb
      apply hinj a haA b hbA _ hca.choose_spec
      rw [hab]
      exact hcb.choose_spec
    · intro c hc
      obtain ⟨_, a, haA, ha⟩ := Finset.mem_filter.mp hc
      refine ⟨a, Finset.mem_filter.mpr ⟨haA, c, ha⟩, ?_⟩
      have hex : ∃ c, place a = .held c := ⟨c, ha⟩
      exact Place.held.inj (hex.choose_spec.symm.trans ha)
  have hagents := Finset.card_filter_add_card_filter_not (s := A) fun a => ∃ c, place a = .held c
  have hcells := Finset.card_filter_add_card_filter_not (s := Finset.range A.card)
    fun c => Taken A place c
  rw [Finset.card_range] at hcells
  have hholes : holes A place 0 = (Finset.range A.card).filter fun c => ¬ Taken A place c := by
    rw [holes, Finset.range_eq_Ico]
  have hfree : (A.filter fun a => ∀ c, place a ≠ .held c) =
      A.filter fun a => ¬ ∃ c, place a = .held c := by
    simp only [not_exists, ne_eq]
  rw [hholes, hfree]
  change holders.card + _ = A.card at hagents
  change taken.card + _ = A.card at hcells
  omega

/-- A searching agent always has a free cell ahead of its cursor. -/
theorem Good.exists_hole (h : Good A place) (ha : a ∈ A) (hs : place a = .seeking i) :
    ∃ c, i ≤ c ∧ c < A.card ∧ ¬ Taken A place c := by
  have hpos : 0 < (seekers A place i).card :=
    Finset.card_pos.mpr ⟨a, mem_seekers.mpr ⟨ha, by simp [hs]⟩⟩
  obtain ⟨c, hc⟩ := Finset.card_pos.mp (hpos.trans_le (h.room i))
  obtain ⟨⟨h1, h2⟩, h3⟩ := mem_holes.mp hc
  exact ⟨c, h1, h2, h3⟩

theorem holes_eq_of_taken (hij : i ≤ j) (h : ∀ x, i ≤ x → x < j → Taken A place x) :
    holes A place i = holes A place j := by
  ext c
  simp only [mem_holes]
  constructor
  · rintro ⟨⟨h1, h2⟩, h3⟩
    exact ⟨⟨not_lt.mp fun hlt => h3 (h c h1 hlt), h2⟩, h3⟩
  · rintro ⟨⟨h1, h2⟩, h3⟩
    exact ⟨⟨hij.trans h1, h2⟩, h3⟩

theorem seekers_anti (hij : i ≤ j) : seekers A place j ⊆ seekers A place i := by
  intro a ha
  obtain ⟨haA, hs⟩ := mem_seekers.mp ha
  refine mem_seekers.mpr ⟨haA, ?_⟩
  cases hp : place a with
  | empty => simp [hp] at hs
  | held c => simp [hp] at hs
  | seeking k =>
    simp only [hp, Place.seeksFrom_seeking] at hs ⊢
    exact hij.trans hs

/-- First fit: the lowest free cell at or beyond the cursor is below the number of agents. -/
theorem Good.take_lt (h : Good A place) (ha : a ∈ A) (hp : place a = .seeking i)
    (ht : ∀ x, i ≤ x → x < c → Taken A place x) : c < A.card := by
  obtain ⟨x, hix, hx, hfree⟩ := h.exists_hole ha hp
  exact (not_lt.mp fun hxc => hfree (ht x hix hxc)).trans_lt hx

section Steps

variable [DecidableEq ι]

theorem taken_update (ha : a ∈ A) {q : Place} :
    Taken A (Function.update place a q) c ↔
      q = .held c ∨ ∃ b ∈ A, b ≠ a ∧ place b = .held c := by
  constructor
  · rintro ⟨b, hb, hc⟩
    by_cases hba : b = a
    · subst hba
      exact .inl (by simpa using hc)
    · rw [Function.update_of_ne hba] at hc
      exact .inr ⟨b, hb, hba, hc⟩
  · rintro (h | ⟨b, hb, hba, hc⟩)
    · exact ⟨a, ha, by simpa using h⟩
    · exact ⟨b, hb, by rwa [Function.update_of_ne hba]⟩

theorem taken_update_of_seeking (hp : place a = .seeking i) :
    Taken A (Function.update place a (.seeking j)) c ↔ Taken A place c := by
  constructor
  · rintro ⟨b, hb, hc⟩
    by_cases hba : b = a
    · subst hba; simp at hc
    · exact ⟨b, hb, by rwa [Function.update_of_ne hba] at hc⟩
  · rintro ⟨b, hb, hc⟩
    have hba : b ≠ a := by rintro rfl; rw [hp] at hc; cases hc
    exact ⟨b, hb, by rwa [Function.update_of_ne hba]⟩

theorem mem_seekers_update {b : ι} {q : Place} :
    b ∈ seekers A (Function.update place a q) i ↔
      b ∈ A ∧ (b = a ∧ q.SeeksFrom i ∨ b ≠ a ∧ (place b).SeeksFrom i) := by
  rw [mem_seekers]
  by_cases hba : b = a <;> simp [hba]

/-- Giving a cell back, or starting without one: the search begins at cell `0`. -/
theorem Good.seek (h : Good A place) (ha : a ∈ A) (hp : ∀ k, place a ≠ .seeking k) :
    Good A (Function.update place a (.seeking 0)) := by
  have hheld : ∀ b c, Function.update place a (.seeking 0) b = .held c → b ≠ a ∧ place b = .held c := by
    intro b c hb
    by_cases hba : b = a
    · subst hba; simp at hb
    · exact ⟨hba, by rwa [Function.update_of_ne hba] at hb⟩
  have hinj : ∀ b ∈ A, ∀ d ∈ A, ∀ c, Function.update place a (.seeking 0) b = .held c →
      Function.update place a (.seeking 0) d = .held c → b = d :=
    fun b hb d hd c hbc hdc => h.inj b hb d hd c (hheld b c hbc).2 (hheld d c hdc).2
  have hlt : ∀ b ∈ A, ∀ c, Function.update place a (.seeking 0) b = .held c → c < A.card :=
    fun b hb c hbc => h.lt b hb c (hheld b c hbc).2
  refine ⟨hinj, hlt, fun k => ?_⟩
  rcases Nat.eq_zero_or_pos k with rfl | hk
  · -- at the origin the count is exact: every agent without a cell has a hole
    rw [card_holes_zero hinj hlt]
    apply Finset.card_le_card
    intro b hb
    obtain ⟨hbA, hs⟩ := mem_seekers.mp hb
    refine Finset.mem_filter.mpr ⟨hbA, fun c hc => ?_⟩
    simp [hc] at hs
  · refine ((Finset.card_le_card fun b hb => ?_).trans (h.room k)).trans
      (Finset.card_le_card fun c hc => ?_)
    · obtain ⟨hbA, ⟨_, hs⟩ | ⟨_, hs⟩⟩ := mem_seekers_update.mp hb
      · simp only [Place.seeksFrom_seeking] at hs; omega
      · exact mem_seekers.mpr ⟨hbA, hs⟩
    · obtain ⟨hrange, hfree⟩ := mem_holes.mp hc
      refine mem_holes.mpr ⟨hrange, fun ht => hfree ?_⟩
      obtain ⟨b, hb, hbc⟩ := ht
      exact ⟨b, hb, (hheld b c hbc).2⟩

/-- Moving the cursor over cells that are all taken. -/
theorem Good.skip (h : Good A place) (ha : a ∈ A) (hp : place a = .seeking i)
    (ht : ∀ x, i ≤ x → x < j → Taken A place x) :
    Good A (Function.update place a (.seeking j)) := by
  have hheld : ∀ b c, Function.update place a (.seeking j) b = .held c → place b = .held c := by
    intro b c hb
    by_cases hba : b = a
    · subst hba; simp at hb
    · rwa [Function.update_of_ne hba] at hb
  have hholes : ∀ k, holes A (Function.update place a (.seeking j)) k = holes A place k := by
    intro k
    ext c
    rw [mem_holes, mem_holes, taken_update_of_seeking hp]
  refine ⟨fun b hb d hd c hbc hdc => h.inj b hb d hd c (hheld b c hbc) (hheld d c hdc),
    fun b hb c hbc => h.lt b hb c (hheld b c hbc), fun k => ?_⟩
  rw [hholes]
  by_cases hk : i < k ∧ k ≤ j
  · -- the cursor crosses `k`: between `i` and `k` there is no hole to lose
    rw [← holes_eq_of_taken hk.1.le fun x h1 h2 => ht x h1 (by omega)]
    refine (Finset.card_le_card fun b hb => ?_).trans (h.room i)
    obtain ⟨hbA, ⟨rfl, _⟩ | ⟨_, hs⟩⟩ := mem_seekers_update.mp hb
    · exact mem_seekers.mpr ⟨hbA, by simp [hp]⟩
    · exact seekers_anti hk.1.le (mem_seekers.mpr ⟨hbA, hs⟩)
  · refine (Finset.card_le_card fun b hb => ?_).trans (h.room k)
    obtain ⟨hbA, ⟨rfl, hs⟩ | ⟨_, hs⟩⟩ := mem_seekers_update.mp hb
    · simp only [Place.seeksFrom_seeking] at hs
      refine mem_seekers.mpr ⟨hbA, ?_⟩
      simp only [hp, Place.seeksFrom_seeking]
      omega
    · exact mem_seekers.mpr ⟨hbA, hs⟩

/-- Taking the lowest free cell at or beyond the cursor. -/
theorem Good.take (h : Good A place) (ha : a ∈ A) (hp : place a = .seeking i) (hic : i ≤ c)
    (hfree : ¬ Taken A place c) (ht : ∀ x, i ≤ x → x < c → Taken A place x) :
    Good A (Function.update place a (.held c)) := by
  have hc := h.take_lt ha hp ht
  have hheld : ∀ b x, Function.update place a (.held c) b = .held x →
      b = a ∧ x = c ∨ b ≠ a ∧ place b = .held x := by
    intro b x hb
    by_cases hba : b = a
    · subst hba
      exact .inl ⟨rfl, by simpa using hb.symm⟩
    · exact .inr ⟨hba, by rwa [Function.update_of_ne hba] at hb⟩
  refine ⟨fun b hb d hd x hbx hdx => ?_, fun b hb x hbx => ?_, fun k => ?_⟩
  · rcases hheld b x hbx with ⟨hba, hxc⟩ | ⟨_, hpb⟩ <;>
      rcases hheld d x hdx with ⟨hda, hxc'⟩ | ⟨_, hpd⟩
    · rw [hba, hda]
    · exact absurd ⟨d, hd, hxc ▸ hpd⟩ hfree
    · exact absurd ⟨b, hb, hxc' ▸ hpb⟩ hfree
    · exact h.inj b hb d hd x hpb hpd
  · rcases hheld b x hbx with ⟨_, rfl⟩ | ⟨_, hpb⟩
    · exact hc
    · exact h.lt b hb x hpb
  · have hholes : (holes A place k).erase c ⊆ holes A (Function.update place a (.held c)) k := by
      intro x hx
      obtain ⟨hxc, hx⟩ := Finset.mem_erase.mp hx
      obtain ⟨hrange, hxf⟩ := mem_holes.mp hx
      refine mem_holes.mpr ⟨hrange, fun htk => ?_⟩
      rcases (taken_update ha).mp htk with he | ⟨b, hb, _, hbx⟩
      · exact hxc (Place.held.inj he).symm
      · exact hxf ⟨b, hb, hbx⟩
    have hother : ∀ b ∈ seekers A (Function.update place a (.held c)) k,
        b ≠ a ∧ b ∈ seekers A place k := by
      intro b hb
      obtain ⟨hbA, ⟨_, hs⟩ | ⟨hba, hs⟩⟩ := mem_seekers_update.mp hb
      · simp at hs
      · exact ⟨hba, mem_seekers.mpr ⟨hbA, hs⟩⟩
    by_cases hkc : c < k
    · -- the taken cell is behind `k`
      refine (Finset.card_le_card fun b hb => (hother b hb).2).trans ((h.room k).trans ?_)
      refine Finset.card_le_card fun x hx => hholes (Finset.mem_erase.mpr ⟨?_, hx⟩)
      rintro rfl
      have := (mem_holes.mp hx).1.1
      omega
    · -- both counts lose one: the searching agent and the cell it takes
      have hmk : holes A place (min i k) = holes A place k :=
        holes_eq_of_taken (min_le_right i k) fun x h1 h2 => ht x (by omega) (by omega)
      have hamem : a ∈ seekers A place (min i k) := mem_seekers.mpr ⟨ha, by simp [hp]⟩
      have hcmem : c ∈ holes A place k := mem_holes.mpr ⟨⟨by omega, hc⟩, hfree⟩
      have hsub : seekers A (Function.update place a (.held c)) k ⊆
          (seekers A place (min i k)).erase a := by
        intro b hb
        obtain ⟨hba, hbs⟩ := hother b hb
        exact Finset.mem_erase.mpr ⟨hba, seekers_anti (min_le_right i k) hbs⟩
      have hleft := Finset.card_le_card hsub
      have hright := Finset.card_le_card hholes
      have hroom := h.room (min i k)
      rw [Finset.card_erase_of_mem hamem] at hleft
      rw [Finset.card_erase_of_mem hcmem] at hright
      rw [hmk] at hroom
      omega

end Steps

end FirstFit
