import Mathlib.Algebra.Order.Group.Multiset
import Mathlib.Data.List.Induction
import Mathlib.Data.Multiset.Count
import Multiswap.Lib.StateError

/-!
# Ledgers of acquired and released resources

A program logs every resource that it acquires and every one that it releases.
The log settles to the resources that are still held, unless something was
released that was not held. A log is balanced if it settles to nothing.
-/

namespace Ledger

universe u

/-- An entry of the log. -/
inductive Entry (ρ : Type u) where
  | acquire (r : ρ)
  | release (r : ρ)
  deriving DecidableEq, Repr

variable {ρ : Type u} [DecidableEq ρ] {log pre : List (Entry ρ)} {H : Multiset ρ}

/-- What is held after one more entry. -/
def Entry.post (e : Entry ρ) (held : Multiset ρ) : Option (Multiset ρ) :=
  match e with
  | .acquire r => some (r ::ₘ held)
  | .release r => if r ∈ held then some (held.erase r) else none

/-- What is held after a log that starts with nothing. -/
def settle (log : List (Entry ρ)) : Option (Multiset ρ) :=
  log.foldlM (fun held e => e.post held) 0

/-- Every resource has been released as often as it was acquired, and at no point
more often than it had been acquired. -/
structure Balanced (log : List (Entry ρ)) : Prop where
  released : ∀ r, log.count (.release r) = log.count (.acquire r)
  never_twice : ∀ pre, pre <+: log → ∀ r, pre.count (.release r) ≤ pre.count (.acquire r)

@[simp] theorem settle_nil : settle ([] : List (Entry ρ)) = some 0 := rfl

theorem settle_concat (log : List (Entry ρ)) (e : Entry ρ) :
    settle (log ++ [e]) = (settle log).bind e.post := by
  rw [settle, List.foldlM_append]
  cases h : log.foldlM (fun held e => Entry.post e held) (0 : Multiset ρ) with
  | none => simp [settle, h]
  | some held => simp [settle, h]

theorem settle_acquire (h : settle log = some H) (r : ρ) :
    settle (log ++ [.acquire r]) = some (r ::ₘ H) := by
  rw [settle_concat, h]
  rfl

theorem settle_release {r : ρ} (h : settle log = some (r ::ₘ H)) :
    settle (log ++ [.release r]) = some H := by
  rw [settle_concat, h]
  simp [Entry.post]

/-- A log that settles has prefixes that settle. -/
theorem settle_of_prefix (hpre : pre <+: log) (h : settle log = some H) :
    ∃ K, settle pre = some K := by
  obtain ⟨rest, rfl⟩ := hpre
  rw [settle, List.foldlM_append] at h
  obtain ⟨K, hK, -⟩ := Option.bind_eq_some_iff.mp h
  exact ⟨K, hK⟩

/-- What is held is what was acquired and not released. -/
theorem settle_count (h : settle log = some H) (r : ρ) :
    H.count r + log.count (.release r) = log.count (.acquire r) := by
  induction log using List.reverseRecOn generalizing H with
  | nil =>
    cases h
    rfl
  | append_singleton log e ih =>
    rw [settle_concat] at h
    obtain ⟨K, hK, hpost⟩ := Option.bind_eq_some_iff.mp h
    have hcount := ih hK
    cases e with
    | acquire x =>
      cases hpost
      by_cases hx : x = r
      · subst hx
        simp [List.count_append, Multiset.count_cons_self]
        omega
      · simpa [List.count_append, Multiset.count_cons_of_ne (Ne.symm hx), List.count_singleton, hx]
          using hcount
    | release x =>
      simp only [Entry.post] at hpost
      split at hpost
      · next hmem =>
        cases hpost
        by_cases hx : x = r
        · subst hx
          have hpos := Multiset.one_le_count_iff_mem.mpr hmem
          simp [List.count_append, Multiset.count_erase_self]
          omega
        · simpa [List.count_append, Multiset.count_erase_of_ne (Ne.symm hx), List.count_singleton,
            hx] using hcount
      · cases hpost

/-- A log that settles is balanced exactly if nothing is held in the end. -/
theorem balanced_iff (h : settle log = some H) : Balanced log ↔ H = 0 := by
  constructor
  · intro hb
    ext r
    have hcount := settle_count h r
    have hall := hb.released r
    rw [Multiset.count_zero]
    omega
  · rintro rfl
    constructor
    · intro r
      simpa using settle_count h r
    · intro pre hpre r
      obtain ⟨K, hK⟩ := settle_of_prefix hpre h
      have hcount := settle_count hK r
      omega

section Programs

variable {ε σ τ α : Type} {logOf : σ → List (Entry ρ)} {f : σ → τ} {A B : Multiset ρ}

/-- Wherever the resources `A` are held, `x` returns, has released them and nothing
else, and has not changed `f`. -/
def Frees (logOf : σ → List (Entry ρ)) (f : σ → τ) (A : Multiset ρ) (x : EStateM ε σ PUnit) :
    Prop :=
  ∀ s H, settle (logOf s) = some (A + H) →
    ∃ s', x s = .ok ⟨⟩ s' ∧ settle (logOf s') = some H ∧ f s' = f s

theorem Frees.pure : Frees logOf f 0 (Pure.pure ⟨⟩ : EStateM ε σ PUnit) := by
  intro s H h
  rw [zero_add] at h
  exact ⟨s, rfl, h, rfl⟩

/-- A program that logs one release. -/
theorem Frees.modify {g : σ → σ} {r : ρ} (hlog : ∀ s, logOf (g s) = logOf s ++ [.release r])
    (hf : ∀ s, f (g s) = f s) : Frees logOf f {r} (modify g : EStateM ε σ PUnit) := by
  intro s H h
  refine ⟨g s, rfl, ?_, hf s⟩
  rw [hlog]
  exact settle_release h

/-- The sequence rule. -/
theorem Frees.bind {x y : EStateM ε σ PUnit} (hx : Frees logOf f A x) (hy : Frees logOf f B y) :
    Frees logOf f (A + B) (x >>= fun _ => y) := by
  intro s H h
  rw [add_assoc] at h
  obtain ⟨s₁, hx₁, hs₁, hf₁⟩ := hx s _ h
  obtain ⟨s₂, hy₂, hs₂, hf₂⟩ := hy s₁ H hs₁
  refine ⟨s₂, ?_, hs₂, hf₂.trans hf₁⟩
  rw [StateError.bind_apply, hx₁]
  exact hy₂

/-- The rule for a loop over a list. -/
theorem Frees.forM {F : α → Multiset ρ} {body : α → EStateM ε σ PUnit}
    (hbody : ∀ a, Frees logOf f (F a) (body a)) (l : List α) :
    Frees logOf f (l.map F).sum (l.forM body) := by
  induction l with
  | nil => exact .pure
  | cons a l ih =>
    rw [List.map_cons, List.sum_cons]
    exact (hbody a).bind ih

end Programs

/-- A state with a log that can be read and replaced. -/
class Logged (σ : Type) (ρ : outParam Type) where
  log : σ → List (Entry ρ)
  setLog : σ → List (Entry ρ) → σ
  log_setLog : ∀ s l, log (setLog s l) = l
  setLog_setLog : ∀ s l l', setLog (setLog s l) l' = setLog s l'
  setLog_log : ∀ s, setLog s (log s) = s

section Logged

variable {ε σ ρ : Type} [Logged σ ρ] {s s' : σ}

/-- Log that a resource is acquired. -/
def acquire (r : ρ) : EStateM ε σ PUnit :=
  modify fun s => Logged.setLog s (Logged.log s ++ [.acquire r])

/-- Log that a resource is released. -/
def release (r : ρ) : EStateM ε σ PUnit :=
  modify fun s => Logged.setLog s (Logged.log s ++ [.release r])

/-- Release what a pointer points to, unless it is null. -/
def releaseIf (p : Bool) (r : ρ) : EStateM ε σ PUnit := if p then release r else pure ⟨⟩

/-- Everything but the log. -/
def rest (s : σ) : σ := Logged.setLog s []

theorem eq_of_rest (h : rest s' = rest s) : s' = Logged.setLog s (Logged.log s') := by
  calc s' = Logged.setLog (rest s') (Logged.log s') := by
        rw [rest, Logged.setLog_setLog, Logged.setLog_log]
    _ = Logged.setLog (rest s) (Logged.log s') := by rw [h]
    _ = Logged.setLog s (Logged.log s') := Logged.setLog_setLog ..

@[simp] theorem acquire_apply (r : ρ) (s : σ) : (acquire r : EStateM ε σ PUnit) s =
    .ok ⟨⟩ (Logged.setLog s (Logged.log s ++ [.acquire r])) := rfl

@[simp] theorem release_apply (r : ρ) (s : σ) : (release r : EStateM ε σ PUnit) s =
    .ok ⟨⟩ (Logged.setLog s (Logged.log s ++ [.release r])) := rfl

variable [DecidableEq ρ]

theorem release_frees (r : ρ) : Frees Logged.log rest {r} (release r : EStateM ε σ PUnit) :=
  .modify (fun s => Logged.log_setLog s _) fun s => Logged.setLog_setLog s _ []

theorem releaseIf_frees (p : Bool) (r : ρ) :
    Frees Logged.log rest (if p then {r} else 0) (releaseIf p r : EStateM ε σ PUnit) := by
  rw [releaseIf]
  split
  · exact release_frees r
  · exact .pure

end Logged

end Ledger
