import Mathlib.Data.List.Induction

/-!
# Runs of a deterministic machine

A machine that takes one step for each input: what holds of every state and of
every step of a run.
-/

namespace Machine

variable {σ ι : Type} {step : σ → ι → σ} {s : σ} {x : ι} {tr : List ι}

/-- The state after a run. -/
def after (step : σ → ι → σ) (s : σ) (tr : List ι) : σ := tr.foldl step s

/-- `P` holds of every state that a run goes through. -/
def Always (step : σ → ι → σ) (P : σ → Prop) (s : σ) (tr : List ι) : Prop :=
  ∀ before rest, tr = before ++ rest → P (after step s before)

/-- `R` holds of every step of a run, that is of its inputs and the states before them. -/
def Each (step : σ → ι → σ) (R : σ → ι → Prop) (s : σ) (tr : List ι) : Prop :=
  ∀ before x rest, tr = before ++ x :: rest → R (after step s before) x

/-- Some step of the run satisfies `A`, and all steps after it satisfy `B`. -/
def Since (step : σ → ι → σ) (A B : σ → ι → Prop) (s : σ) (tr : List ι) : Prop :=
  ∃ before x rest, tr = before ++ x :: rest ∧ A (after step s before) x ∧
    Each step B (step (after step s before) x) rest

@[simp] theorem after_nil : after step s [] = s := rfl

@[simp] theorem after_cons : after step s (x :: tr) = after step (step s x) tr := rfl

theorem after_append (tr tr' : List ι) :
    after step s (tr ++ tr') = after step (after step s tr) tr' :=
  List.foldl_append ..

theorem after_concat (tr : List ι) (x : ι) :
    after step s (tr ++ [x]) = step (after step s tr) x := by
  rw [after_append, after_cons, after_nil]

variable {P I : σ → Prop} {R R' : σ → ι → Prop}

theorem always_cons : Always step P s (x :: tr) ↔ P s ∧ Always step P (step s x) tr := by
  constructor
  · intro h
    refine ⟨h [] _ rfl, fun before rest heq => ?_⟩
    exact h (x :: before) rest (congrArg _ heq)
  · rintro ⟨hs, h⟩ before rest heq
    cases before with
    | nil => exact hs
    | cons y before =>
      obtain ⟨rfl, htr⟩ := List.cons.inj heq
      exact h before rest htr

theorem each_cons : Each step R s (x :: tr) ↔ R s x ∧ Each step R (step s x) tr := by
  constructor
  · intro h
    refine ⟨h [] x tr rfl, fun before y rest heq => ?_⟩
    exact h (x :: before) y rest (congrArg _ heq)
  · rintro ⟨hs, h⟩ before y rest heq
    cases before with
    | nil =>
      obtain ⟨rfl, -⟩ := List.cons.inj heq
      exact hs
    | cons z before =>
      obtain ⟨rfl, htr⟩ := List.cons.inj heq
      exact h before y rest htr

theorem always_nil : Always step P s [] ↔ P s := by
  constructor
  · intro h
    exact h [] [] rfl
  · intro hs before rest heq
    rw [(List.append_eq_nil_iff.mp heq.symm).1]
    exact hs

theorem each_nil : Each step R s [] := by
  intro before x rest heq
  cases (List.append_eq_nil_iff.mp heq.symm).2

theorem each_concat : Each step R s (tr ++ [x]) ↔ Each step R s tr ∧ R (after step s tr) x := by
  induction tr generalizing s with
  | nil =>
    rw [List.nil_append, each_cons, after_nil]
    constructor
    · rintro ⟨hx, -⟩
      exact ⟨each_nil, hx⟩
    · rintro ⟨-, hx⟩
      exact ⟨hx, each_nil⟩
  | cons y tr ih => rw [List.cons_append, each_cons, each_cons, ih, and_assoc, after_cons]

/-- What a step keeps, a run keeps. -/
theorem invariant (hstep : ∀ s x, I s → I (step s x)) (hs : I s) (tr : List ι) :
    I (after step s tr) := by
  induction tr generalizing s with
  | nil => exact hs
  | cons x tr ih => exact ih (hstep s x hs)

/-- Where steps keep `I` and, from states that satisfy `P`, lead to such states
exactly if `R` holds of them, all states satisfy `P` exactly if `R` holds of all steps. -/
theorem always_iff_each (hstep : ∀ s x, I s → I (step s x))
    (hP : ∀ s x, I s → P s → (P (step s x) ↔ R s x)) (hI : I s) (hs : P s) :
    Always step P s tr ↔ Each step R s tr := by
  induction tr generalizing s with
  | nil => exact iff_of_true (always_nil.mpr hs) each_nil
  | cons x tr ih =>
    rw [always_cons, each_cons]
    constructor
    · rintro ⟨-, hrest⟩
      have hnext : P (step s x) := hrest [] tr rfl
      exact ⟨(hP s x hI hs).mp hnext, (ih (hstep s x hI) hnext).mp hrest⟩
    · rintro ⟨hx, hrest⟩
      have hnext : P (step s x) := (hP s x hI hs).mpr hx
      exact ⟨hs, (ih (hstep s x hI) hnext).mpr hrest⟩

/-- Two properties of steps that agree where `I` holds, which steps with the first
keep, hold of all steps of the same runs. -/
theorem each_iff_each (hstep : ∀ s x, I s → R s x → I (step s x))
    (hR : ∀ s x, I s → (R s x ↔ R' s x)) (hI : I s) :
    Each step R s tr ↔ Each step R' s tr := by
  induction tr generalizing s with
  | nil => exact iff_of_true each_nil each_nil
  | cons x tr ih =>
    rw [each_cons, each_cons, ← hR s x hI]
    refine and_congr_right fun hx => ?_
    exact ih (hstep s x hI hx)

/-- What steps with `R` keep, a run of such steps keeps. -/
theorem invariant_of_each (hstep : ∀ s x, I s → R s x → I (step s x)) (hs : I s)
    (htr : Each step R s tr) : I (after step s tr) := by
  induction tr generalizing s with
  | nil => exact hs
  | cons x tr ih =>
    obtain ⟨hx, hrest⟩ := each_cons.mp htr
    exact ih (hstep s x hs hx) hrest

section Since

variable {A B : σ → ι → Prop}

theorem since_nil : ¬ Since step A B s [] := by
  rintro ⟨before, x, rest, heq, -⟩
  cases (List.append_eq_nil_iff.mp heq.symm).2

/-- The step that `Since` speaks of is the last one or an earlier one. -/
theorem since_concat : Since step A B s (tr ++ [x]) ↔
    A (after step s tr) x ∨ (Since step A B s tr ∧ B (after step s tr) x) := by
  constructor
  · rintro ⟨before, y, rest, heq, hA, hB⟩
    cases rest using List.reverseRecOn with
    | nil =>
      obtain ⟨rfl, hlast⟩ := List.append_inj' heq rfl
      cases hlast
      exact .inl hA
    | append_singleton rest z =>
      rw [← List.cons_append, ← List.append_assoc] at heq
      obtain ⟨rfl, hlast⟩ := List.append_inj' heq rfl
      cases hlast
      rw [each_concat, ← after_cons, ← after_append] at hB
      exact .inr ⟨⟨before, y, rest, rfl, hA, hB.1⟩, hB.2⟩
  · rintro (hA | ⟨⟨before, y, rest, rfl, hA, hB⟩, hx⟩)
    · exact ⟨tr, x, [], rfl, hA, each_nil⟩
    · refine ⟨before, y, rest ++ [x], by simp, hA, ?_⟩
      rw [each_concat, ← after_cons, ← after_append]
      exact ⟨hB, hx⟩

/-- A property that steps with `A` establish and of the others only those with `B`
keep holds after the runs of which `Since` says so. -/
theorem after_iff_since (hstep : ∀ s x, I s → I (step s x))
    (hP : ∀ s x, I s → (P (step s x) ↔ A s x ∨ (P s ∧ B s x))) (hI : I s) (hs : ¬ P s)
    (tr : List ι) : P (after step s tr) ↔ Since step A B s tr := by
  induction tr using List.reverseRecOn with
  | nil => exact iff_of_false hs since_nil
  | append_singleton tr x ih =>
    rw [after_concat, since_concat, ← ih]
    exact hP _ x (invariant hstep hI tr)

end Since

section Replies

variable {τ ρ : Type} {call : σ → ι → ρ × σ} {call' : τ → ι → ρ × τ} {t : τ} {xs : List ι}

/-- The replies of a machine that answers each input. -/
def replies (call : σ → ι → ρ × σ) : σ → List ι → List ρ
  | _, [] => []
  | s, x :: xs => (call s x).1 :: replies call (call s x).2 xs

/-- The state after the inputs are answered. -/
def answered (call : σ → ι → ρ × σ) (s : σ) (xs : List ι) : σ :=
  after (fun s x => (call s x).2) s xs

/-- Machines whose calls keep a relation and give the same replies where it holds
give the same replies in all runs. -/
theorem replies_eq {R : σ → τ → Prop} {P : ι → Prop}
    (hcall : ∀ s t x, P x → R s t →
      (call s x).1 = (call' t x).1 ∧ R (call s x).2 (call' t x).2)
    (hxs : ∀ x ∈ xs, P x) (h : R s t) : replies call s xs = replies call' t xs := by
  induction xs generalizing s t with
  | nil => rfl
  | cons x xs ih =>
    obtain ⟨hreply, hrel⟩ := hcall s t x (hxs x List.mem_cons_self) h
    have hrest := ih (fun y hy => hxs y (List.mem_cons_of_mem x hy)) hrel
    rw [replies, replies, hreply, hrest]

/-- The reply to an input depends on the inputs before it only. -/
theorem getElem?_replies (call : σ → ι → ρ × σ) (s : σ) (xs : List ι) (n : ℕ) :
    (replies call s xs)[n]? = xs[n]?.map fun x => (call (answered call s (xs.take n)) x).1 := by
  induction xs generalizing s n with
  | nil => rfl
  | cons x xs ih =>
    cases n with
    | zero => rfl
    | succ n => exact ih (call s x).2 n

end Replies

end Machine
