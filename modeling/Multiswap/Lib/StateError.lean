import Mathlib.Logic.Basic

/-!
# How a computation can end

Rules for programs in `EStateM`, which return a value or stop with an error and
keep the state in both cases: the operations applied to a state, and a predicate
for what every value and every error satisfies.
-/

namespace StateError

variable {ε σ β γ : Type}

@[simp] theorem bind_apply (x : EStateM ε σ β) (f : β → EStateM ε σ γ) (s : σ) :
    (x >>= f) s = match x s with
      | .ok b s' => f b s'
      | .error e s' => .error e s' := by
  simp only [bind, EStateM.bind]
  cases x s <;> rfl

@[simp] theorem map_apply (x : EStateM ε σ β) (f : β → γ) (s : σ) :
    (f <$> x) s = match x s with
      | .ok b s' => .ok (f b) s'
      | .error e s' => .error e s' := by
  simp only [Functor.map, EStateM.map]
  cases x s <;> rfl

@[simp] theorem pure_apply (b : β) (s : σ) : (pure b : EStateM ε σ β) s = .ok b s := rfl

@[simp] theorem get_apply (s : σ) : (get : EStateM ε σ σ) s = .ok s s := rfl

@[simp] theorem set_apply (s s' : σ) : (set s' : EStateM ε σ PUnit) s = .ok ⟨⟩ s' := rfl

@[simp] theorem modify_apply (f : σ → σ) (s : σ) :
    (modify f : EStateM ε σ PUnit) s = .ok ⟨⟩ (f s) := rfl

@[simp] theorem throw_apply (e : ε) (s : σ) : (throw e : EStateM ε σ β) s = .error e s := rfl

/-- The state that a program was in when it returned or stopped. -/
def finalState : EStateM.Result ε σ β → σ
  | .ok _ s => s
  | .error _ s => s

@[simp] theorem finalState_ok (b : β) (s : σ) : finalState (.ok b s : EStateM.Result ε σ β) = s := rfl

@[simp] theorem finalState_error (e : ε) (s : σ) :
    finalState (.error e s : EStateM.Result ε σ β) = s := rfl

/-- A sequence that returns, cut at its first part. -/
theorem bind_eq_ok {x : EStateM ε σ β} {f : β → EStateM ε σ γ} {s s' : σ} {c : γ} :
    (x >>= f) s = .ok c s' ↔ ∃ b s₁, x s = .ok b s₁ ∧ f b s₁ = .ok c s' := by
  rw [bind_apply]
  cases x s with
  | ok b s₁ =>
    constructor
    · intro h
      exact ⟨b, s₁, rfl, h⟩
    · rintro ⟨_, _, heq, h⟩
      cases heq
      exact h
  | error e s₁ => simp

/-- From every state, what `x` returns satisfies `P` and what it stops with satisfies `E`. -/
structure Ends (E : ε → Prop) (P : β → Prop) (x : EStateM ε σ β) : Prop where
  value : ∀ s b s', x s = .ok b s' → P b
  error : ∀ s e s', x s = .error e s' → E e

variable {E : ε → Prop} {P : β → Prop} {Q : γ → Prop}

theorem Ends.pure {b : β} (h : P b) : Ends E P (Pure.pure b : EStateM ε σ β) where
  value s b' s' heq := by
    simp only [pure_apply, EStateM.Result.ok.injEq] at heq
    exact heq.1 ▸ h
  error s e s' heq := by cases heq

theorem Ends.throw {e : ε} (h : E e) : Ends E P (throw e : EStateM ε σ β) where
  value s b s' heq := by cases heq
  error s e' s' heq := by
    simp only [throw_apply, EStateM.Result.error.injEq] at heq
    exact heq.1 ▸ h

theorem Ends.get : Ends E (fun _ => True) (MonadState.get : EStateM ε σ σ) where
  value _ _ _ _ := trivial
  error s e s' heq := by cases heq

theorem Ends.set (s : σ) : Ends E (fun _ => True) (MonadStateOf.set s : EStateM ε σ PUnit) where
  value _ _ _ _ := trivial
  error s e s' heq := by cases heq

theorem Ends.modify (f : σ → σ) : Ends E (fun _ => True) (modify f : EStateM ε σ PUnit) where
  value _ _ _ _ := trivial
  error s e s' heq := by cases heq

/-- The sequence rule. -/
theorem Ends.bind {x : EStateM ε σ β} {f : β → EStateM ε σ γ} (hx : Ends E P x)
    (hf : ∀ b, P b → Ends E Q (f b)) : Ends E Q (x >>= f) where
  value s c s' heq := by
    rw [bind_apply] at heq
    cases h : x s with
    | ok b s₁ =>
      rw [h] at heq
      exact (hf b (hx.value s b s₁ h)).value s₁ c s' heq
    | error e s₁ =>
      rw [h] at heq
      cases heq
  error s e s' heq := by
    rw [bind_apply] at heq
    cases h : x s with
    | ok b s₁ =>
      rw [h] at heq
      exact (hf b (hx.value s b s₁ h)).error s₁ e s' heq
    | error e' s₁ =>
      rw [h] at heq
      simp only [EStateM.Result.error.injEq] at heq
      exact heq.1 ▸ hx.error s e' s₁ h

theorem Ends.ite {p : Prop} [Decidable p] {x y : EStateM ε σ β} (hx : p → Ends E P x)
    (hy : ¬ p → Ends E P y) : Ends E P (if p then x else y) := by
  split
  · next h => exact hx h
  · next h => exact hy h

/-- A check that stops the program, before the rest of it. -/
theorem Ends.check {p : Prop} [Decidable p] {e : ε} {k : PUnit → EStateM ε σ β} (he : p → E e)
    (hk : ¬ p → Ends E P (k ⟨⟩)) : Ends E P (if p then MonadExcept.throw e >>= k else k ⟨⟩) :=
  .ite (fun h => .bind (P := fun _ => False) (.throw (he h)) fun _ hf => hf.elim) hk

/-- Whether it returns or stops, `x` does not change `f`. -/
def Keeps {δ : Type} (f : σ → δ) (x : EStateM ε σ β) : Prop := ∀ s, f (finalState (x s)) = f s

variable {δ : Type} {f : σ → δ}

theorem Keeps.pure (b : β) : Keeps f (Pure.pure b : EStateM ε σ β) := fun _ => rfl

theorem Keeps.throw (e : ε) : Keeps f (throw e : EStateM ε σ β) := fun _ => rfl

theorem Keeps.get : Keeps f (MonadState.get : EStateM ε σ σ) := fun _ => rfl

theorem Keeps.modify {g : σ → σ} (h : ∀ s, f (g s) = f s) :
    Keeps f (modify g : EStateM ε σ PUnit) := h

theorem Keeps.bind {x : EStateM ε σ β} {k : β → EStateM ε σ γ} (hx : Keeps f x)
    (hk : ∀ b, Keeps f (k b)) : Keeps f (x >>= k) := by
  intro s
  have hs := hx s
  rw [bind_apply]
  cases h : x s with
  | ok b s₁ =>
    rw [h] at hs
    exact (hk b s₁).trans hs
  | error e s₁ =>
    rw [h] at hs
    exact hs

theorem Keeps.ite {p : Prop} [Decidable p] {x y : EStateM ε σ β} (hx : Keeps f x)
    (hy : Keeps f y) : Keeps f (if p then x else y) := by
  split
  · exact hx
  · exact hy

/-- Where `x` stops, it has not changed `f`. -/
def KeepsStopping {δ : Type} (f : σ → δ) (x : EStateM ε σ β) : Prop :=
  ∀ s e s', x s = .error e s' → f s' = f s

/-- The last part of a sequence may change `f` as long as it then returns. -/
theorem KeepsStopping.bind {x : EStateM ε σ β} {k : β → EStateM ε σ γ} (hx : Keeps f x)
    (hk : ∀ b, KeepsStopping f (k b)) : KeepsStopping f (x >>= k) := by
  intro s e s' heq
  have hs := hx s
  rw [bind_apply] at heq
  cases h : x s with
  | ok b s₁ =>
    rw [h] at heq hs
    exact (hk b s₁ e s' heq).trans hs
  | error e' s₁ =>
    rw [h] at heq hs
    cases heq
    exact hs

/-- A change that is followed by a return. -/
theorem KeepsStopping.modify_pure (g : σ → σ) (b : β) :
    KeepsStopping f (modify g >>= fun _ => Pure.pure b : EStateM ε σ β) :=
  fun _ _ _ heq => by cases heq

/-- Whether it returns or stops, `x` leads from states that satisfy `I` to such states. -/
def Maintains (I : σ → Prop) (x : EStateM ε σ β) : Prop := ∀ s, I s → I (finalState (x s))

variable {I : σ → Prop}

theorem Maintains.pure (b : β) : Maintains I (Pure.pure b : EStateM ε σ β) := fun _ hs => hs

theorem Maintains.modify {g : σ → σ} (h : ∀ s, I s → I (g s)) :
    Maintains I (modify g : EStateM ε σ PUnit) := h

theorem Maintains.bind {x : EStateM ε σ β} {k : β → EStateM ε σ γ} (hx : Maintains I x)
    (hk : ∀ b, Maintains I (k b)) : Maintains I (x >>= k) := by
  intro s hs
  have hs' := hx s hs
  rw [bind_apply]
  cases h : x s with
  | ok b s₁ =>
    rw [h] at hs'
    exact hk b s₁ hs'
  | error e s₁ =>
    rw [h] at hs'
    exact hs'

end StateError
