import Multiswap.Lib.Transition

/-!
# Forward simulation between systems with observable runs

A concrete system is followed by an abstract one if every step of the first can be
answered by some steps of the second so that a relation between the two traces and
the two states is kept.
-/

namespace Transition.System

universe u v w z

variable {σ : Type u} {ε : Type v} {τ : Type w} {δ : Type z} {M : System σ ε}

/-- Some steps one after the other, with the events that they emit. -/
inductive Steps (step : σ → List ε → σ → Prop) : σ → List ε → σ → Prop
  | refl (s : σ) : Steps step s [] s
  | tail {s s₁ s₂ : σ} {tr ev : List ε} : Steps step s tr s₁ → step s₁ ev s₂ →
      Steps step s (tr ++ ev) s₂

section Steps

variable {step step' : σ → List ε → σ → Prop} {s s₁ s₂ : σ} {tr tr' : List ε}

theorem Steps.single (h : step s tr s₁) : Steps step s tr s₁ := by
  simpa using (Steps.refl s).tail h

theorem Steps.trans (h : Steps step s tr s₁) (h' : Steps step s₁ tr' s₂) :
    Steps step s (tr ++ tr') s₂ := by
  induction h' with
  | refl => simpa using h
  | tail _ hs ih =>
    rw [← List.append_assoc]
    exact ih.tail hs

theorem Steps.head (h : step s tr s₁) (h' : Steps step s₁ tr' s₂) : Steps step s (tr ++ tr') s₂ :=
  (Steps.single h).trans h'

/-- Steps of a smaller relation. -/
theorem Steps.mono (hle : ∀ s ev s', step s ev s' → step' s ev s') (h : Steps step s tr s₁) :
    Steps step' s tr s₁ := by
  induction h with
  | refl => exact .refl s
  | tail _ hs ih => exact ih.tail (hle _ _ _ hs)

/-- What a step keeps, several steps keep. -/
theorem Steps.invariant {I : σ → Prop} (hstep : ∀ s ev s', I s → step s ev s' → I s')
    (h : Steps step s tr s₁) (hs : I s) : I s₁ := by
  induction h with
  | refl => exact hs
  | tail _ hstep' ih => exact hstep _ _ _ ih hstep'

theorem Run.steps (h : M.Run tr s) (h' : Steps M.step s tr' s₁) : M.Run (tr ++ tr') s₁ := by
  induction h' with
  | refl => simpa using h
  | tail _ hs ih =>
    rw [← List.append_assoc]
    exact ih.step hs

/-- A run is some steps from an initial state. -/
theorem Run.exists_steps (h : M.Run tr s) : ∃ s₀, M.init s₀ ∧ Steps M.step s₀ tr s := by
  induction h with
  | start hs => exact ⟨_, hs, .refl _⟩
  | step _ hs ih =>
    obtain ⟨s₀, hinit, hsteps⟩ := ih
    exact ⟨s₀, hinit, hsteps.tail hs⟩

end Steps

/-- The system `A` follows the runs of `C` whose traces satisfy `P`: the relation `R`
between what both have shown and where they stand can be kept. -/
structure Follows (C : System σ ε) (A : System τ δ) (P : List ε → Prop)
    (R : List ε → σ → List δ → τ → Prop) : Prop where
  closed : ∀ tr ev, P (tr ++ ev) → P tr
  init : ∀ s, C.init s → ∃ t, A.init t ∧ R [] s [] t
  step : ∀ tr ev s s' tr' t, C.Run tr s → C.step s ev s' → P (tr ++ ev) → R tr s tr' t →
    ∃ ev' t', Steps A.step t ev' t' ∧ R (tr ++ ev) s' (tr' ++ ev') t'

/-- What follows the steps goes on following. -/
theorem Follows.steps {C : System σ ε} {A : System τ δ} {P : List ε → Prop}
    {R : List ε → σ → List δ → τ → Prop} (hf : Follows C A P R) {tr ev : List ε} {s s' : σ}
    {tr' : List δ} {t : τ} (h : C.Run tr s) (hs : Steps C.step s ev s') (hp : P (tr ++ ev))
    (hr : R tr s tr' t) : ∃ ev' t', Steps A.step t ev' t' ∧ R (tr ++ ev) s' (tr' ++ ev') t' := by
  induction hs with
  | refl => exact ⟨[], t, .refl t, by simpa using hr⟩
  | @tail s₁ s₂ ev ev₂ hs₁ hs₂ ih =>
    rw [← List.append_assoc] at hp
    obtain ⟨ev', t₁, ht₁, hr₁⟩ := ih (hf.closed _ _ hp)
    obtain ⟨ev'', t₂, ht₂, hr₂⟩ := hf.step _ _ _ _ _ _ (h.steps hs₁) hs₂ hp hr₁
    refine ⟨ev' ++ ev'', t₂, ht₁.trans ht₂, ?_⟩
    rw [← List.append_assoc, ← List.append_assoc]
    exact hr₂

/-- What follows the steps follows the runs. -/
theorem Follows.run {C : System σ ε} {A : System τ δ} {P : List ε → Prop}
    {R : List ε → σ → List δ → τ → Prop} (hf : Follows C A P R) {tr : List ε} {s : σ}
    (h : C.Run tr s) (hp : P tr) : ∃ tr' t, A.Run tr' t ∧ R tr s tr' t := by
  induction h with
  | start hs =>
    obtain ⟨t, ht, hr⟩ := hf.init _ hs
    exact ⟨[], t, .start ht, hr⟩
  | @step tr ev s s' hrun hs ih =>
    obtain ⟨tr', t, ht, hr⟩ := ih (hf.closed tr ev hp)
    obtain ⟨ev', t', hsteps, hr'⟩ := hf.step tr ev s s' tr' t hrun hs hp hr
    exact ⟨tr' ++ ev', t', ht.steps hsteps, hr'⟩

end Transition.System
