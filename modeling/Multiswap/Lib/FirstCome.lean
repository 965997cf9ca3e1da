import Mathlib.Data.Finset.Card
import Mathlib.Data.List.Induction
import Mathlib.Data.List.TakeWhile

/-!
# First-come tables

An append-only table of keys: a request for a key that is not in it appends the
key, any other request changes nothing. A key's index is then the number of
distinct keys that were requested before its own first request, and it never
changes.
-/

namespace FirstCome

variable {κ : Type} [DecidableEq κ] {T : List κ} {ks : List κ} {j k : κ}

/-- A request for a key. -/
def register (T : List κ) (k : κ) : List κ := if k ∈ T then T else T ++ [k]

/-- The table after a sequence of requests. -/
def table (ks : List κ) : List κ := ks.foldl register []

/-- The number of distinct keys requested before the first request for `k`. -/
def rank (ks : List κ) (k : κ) : ℕ := (ks.takeWhile (· ≠ k)).toFinset.card

@[simp] theorem mem_register : j ∈ register T k ↔ j ∈ T ∨ j = k := by
  rw [register]
  split
  · next h =>
    constructor
    · exact .inl
    · rintro (hj | rfl)
      · exact hj
      · exact h
  · rw [List.mem_append, List.mem_singleton]

theorem nodup_register (h : T.Nodup) : (register T k).Nodup := by
  rw [register]
  split
  · exact h
  · next hk => simpa [List.nodup_append] using ⟨h, fun j hj => ne_of_mem_of_not_mem hj hk⟩

/-- A request moves no key that the table has. -/
theorem idxOf_register (h : j ∈ T) : (register T k).idxOf j = T.idxOf j := by
  rw [register]
  split
  · rfl
  · exact List.idxOf_append_of_mem h

/-- A requested key has the index that it had, or else the first free one. -/
theorem idxOf_register_self : (register T k).idxOf k = T.idxOf k := by
  by_cases h : k ∈ T
  · exact idxOf_register h
  · rw [register, if_neg h, List.idxOf_append_of_notMem h, List.idxOf_cons_self, Nat.add_zero,
      List.idxOf_eq_length h]

theorem table_concat : table (ks ++ [k]) = register (table ks) k := by
  rw [table, table, List.foldl_append, List.foldl_cons, List.foldl_nil]

@[simp] theorem mem_table : k ∈ table ks ↔ k ∈ ks := by
  induction ks using List.reverseRecOn with
  | nil => rfl
  | append_singleton ks j ih => rw [table_concat, mem_register, ih, List.mem_append, List.mem_singleton]

theorem nodup_table (ks : List κ) : (table ks).Nodup := by
  induction ks using List.reverseRecOn with
  | nil => exact List.nodup_nil
  | append_singleton ks j ih =>
    rw [table_concat]
    exact nodup_register ih

/-- The table has one entry for each distinct key. -/
theorem length_table (ks : List κ) : (table ks).length = ks.toFinset.card := by
  rw [← List.toFinset_card_of_nodup (nodup_table ks)]
  congr 1
  ext k
  simp only [List.mem_toFinset, mem_table]

theorem rank_of_notMem (h : k ∉ ks) : rank ks k = ks.toFinset.card := by
  rw [rank, List.takeWhile_eq_self_iff.mpr]
  intro j hj
  exact decide_eq_true (ne_of_mem_of_not_mem hj h)

/-- Later requests do not change the rank of a requested key. -/
theorem rank_append (h : k ∈ ks) (js : List κ) : rank (ks ++ js) k = rank ks k := by
  rw [rank, rank]
  congr 2
  induction ks with
  | nil => cases h
  | cons i ks ih =>
    rw [List.cons_append, List.takeWhile_cons, List.takeWhile_cons]
    by_cases hik : i = k
    · simp only [hik, ne_eq, not_true_eq_false, decide_false, Bool.false_eq_true, if_false]
    · rw [ih ((List.mem_cons.mp h).resolve_left (Ne.symm hik))]

/-- The request itself does not count. -/
theorem rank_concat_self : rank (ks ++ [k]) k = rank ks k := by
  by_cases h : k ∈ ks
  · exact rank_append h [k]
  · have hne : ∀ j ∈ ks, decide (j ≠ k) = true := fun j hj =>
      decide_eq_true (ne_of_mem_of_not_mem hj h)
    rw [rank, rank, List.takeWhile_append_of_pos hne, List.takeWhile_cons_of_neg (by simp),
      List.append_nil, List.takeWhile_eq_self_iff.mpr hne]

/-- The index of a key is its rank. -/
theorem idxOf_table (ks : List κ) (k : κ) : (table ks).idxOf k = rank ks k := by
  induction ks using List.reverseRecOn with
  | nil => rfl
  | append_singleton ks j ih =>
    by_cases hk : k ∈ ks
    · rw [table_concat, idxOf_register (mem_table.mpr hk), ih, rank_append hk]
    · by_cases hj : k = j
      · subst hj
        rw [table_concat, idxOf_register_self, ih, rank_concat_self]
      · have hnew : k ∉ ks ++ [j] := by simp [hk, hj]
        rw [List.idxOf_eq_length (mt mem_table.mp hnew), length_table, rank_of_notMem hnew]

/-- Requested keys have different ranks. -/
theorem rank_inj (hj : j ∈ ks) (h : rank ks j = rank ks k) : j = k := by
  rw [← idxOf_table, ← idxOf_table] at h
  exact (List.idxOf_inj (mem_table.mpr hj)).mp h

end FirstCome
