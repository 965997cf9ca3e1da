import Mathlib.Data.List.Induction
import Mathlib.Logic.Function.Basic

/-!
# Cells written one after the other

A memory of addressed cells after a sequence of writes, and what a cell then
holds: the contents of the last write to its address.
-/

namespace CellStore

variable {ι κ α : Type} {zero : α} {ws : List (κ × α)} {P Q : κ → Prop} [DecidablePred P]
  [DecidablePred Q]

/-- The contents of the last write to a key that satisfies `P`; `zero` if there is none. -/
def last (zero : α) (P : κ → Prop) [DecidablePred P] (ws : List (κ × α)) : α :=
  ws.foldl (fun a w => if P w.1 then w.2 else a) zero

theorem last_concat (w : κ × α) : last zero P (ws ++ [w]) = if P w.1 then w.2 else last zero P ws := by
  rw [last, List.foldl_append, List.foldl_cons, List.foldl_nil, last]

theorem last_congr (h : ∀ w ∈ ws, P w.1 ↔ Q w.1) : last zero P ws = last zero Q ws := by
  induction ws using List.reverseRecOn with
  | nil => rfl
  | append_singleton ws w ih =>
    rw [last_concat, last_concat, ih fun v hv => h v (List.mem_append_left _ hv)]
    simp only [h w (by simp)]

/-- The cells after a sequence of writes, by address. -/
def memory [DecidableEq ι] (zero : α) (addr : κ → ι) (ws : List (κ × α)) (i : ι) : α :=
  last zero (addr · = i) ws

/-- A write replaces the cell at its address. -/
theorem memory_concat [DecidableEq ι] (addr : κ → ι) (ws : List (κ × α)) (w : κ × α) :
    memory zero addr (ws ++ [w]) = Function.update (memory zero addr ws) (addr w.1) w.2 := by
  funext i
  rw [memory, last_concat, Function.update_apply]
  simp only [eq_comm, memory]

/-- The addresses of keys that are not written do not matter. -/
theorem memory_congr [DecidableEq ι] {addr addr' : κ → ι} (h : ∀ w ∈ ws, addr w.1 = addr' w.1) :
    memory zero addr ws = memory zero addr' ws := by
  funext i
  apply last_congr
  intro w hw
  rw [h w hw]

/-- If no two keys share an address, a cell holds what was written for its key. -/
theorem memory_of_injOn [DecidableEq ι] [DecidableEq κ] {addr : κ → ι} {k : κ}
    (h : ∀ w ∈ ws, addr w.1 = addr k → w.1 = k) :
    memory zero addr ws (addr k) = last zero (· = k) ws := by
  apply last_congr
  intro w hw
  constructor
  · exact h w hw
  · intro hk
    rw [hk]

end CellStore
