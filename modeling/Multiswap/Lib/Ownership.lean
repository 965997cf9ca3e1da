import Multiswap.Lib.Ledger
import Multiswap.Lib.Transition

/-!
# Ownership in transition systems

A run acquires and releases resources, as its events say. What it has acquired and
not released is owned by some part of the state, which is yet to release it, or is
lost. Under a discipline that says which steps lose something, the runs without such
a step are those in which all is accounted for.
-/

namespace Ownership

open Ledger (settle Balanced)
open Transition (System)

universe u v w

section Transfers

variable {ρ : Type u} [DecidableEq ρ] {A B : Multiset ρ} {l : List (Ledger.Entry ρ)}

/-- The entries `l` turn what is held by the owners of `A` into what is held by those of `B`. -/
def Transfers (l : List (Ledger.Entry ρ)) (A B : Multiset ρ) : Prop :=
  ∀ log L, settle log = some (A + L) → settle (log ++ l) = some (B + L)

theorem Transfers.refl (A : Multiset ρ) : Transfers [] A A := by
  intro log L h
  rw [List.append_nil]
  exact h

theorem Transfers.acquire (r : ρ) (A : Multiset ρ) : Transfers [.acquire r] A ({r} + A) := by
  intro log L h
  rw [add_assoc, Multiset.singleton_add]
  exact Ledger.settle_acquire h r

theorem Transfers.release (r : ρ) (A : Multiset ρ) : Transfers [.release r] ({r} + A) A := by
  intro log L h
  rw [add_assoc, Multiset.singleton_add] at h
  exact Ledger.settle_release h

/-- What an owner gives up without an entry is held, and owned by nobody. -/
theorem Transfers.giveUp (A B : Multiset ρ) : Transfers [] (A + B) (0 + B + A) := by
  rw [zero_add, add_comm]
  exact .refl _

/-- What others own does not matter. -/
theorem Transfers.frame (h : Transfers l A B) (C : Multiset ρ) : Transfers l (A + C) (B + C) := by
  intro log L hs
  rw [add_assoc] at hs ⊢
  exact h log (C + L) hs

end Transfers

section Systems

variable {σ : Type v} {ε : Type w} {ρ : Type u} [DecidableEq ρ] {M : System σ ε}
  {entries : ε → List (Ledger.Entry ρ)} {owned : σ → Multiset ρ}
  {Spoiled : List ε → σ → Prop} {Fails : σ → List ε → σ → Prop} {tr : List ε} {s : σ}

/-- Nothing has spoiled the run, and what it holds is owned. -/
structure Accounted (entries : ε → List (Ledger.Entry ρ)) (owned : σ → Multiset ρ)
    (Spoiled : List ε → σ → Prop) (tr : List ε) (s : σ) : Prop where
  unspoiled : ¬ Spoiled tr s
  held : settle (tr.flatMap entries) = some (owned s)

/-- A step hands on what was owned, except for what it leaks, and spoils the run or
leaks something if and only if it fails. -/
def Disciplined (entries : ε → List (Ledger.Entry ρ)) (owned : σ → Multiset ρ)
    (Spoiled : List ε → σ → Prop) (Fails : σ → List ε → σ → Prop) (tr : List ε) (s : σ)
    (ev : List ε) (s' : σ) : Prop :=
  ∃ leak, Transfers (ev.flatMap entries) (owned s) (owned s' + leak) ∧
    ((Spoiled (tr ++ ev) s' ∨ leak ≠ 0) ↔ (Spoiled tr s ∨ Fails s ev s'))

/-- All steps do. -/
structure Discipline (M : System σ ε) (entries : ε → List (Ledger.Entry ρ))
    (owned : σ → Multiset ρ) (Spoiled : List ε → σ → Prop) (Fails : σ → List ε → σ → Prop) :
    Prop where
  init : ∀ s, M.init s → owned s = 0 ∧ ¬ Spoiled [] s
  step : ∀ tr s ev s', M.step s ev s' → Disciplined entries owned Spoiled Fails tr s ev s'

section Steps

variable {s' : σ} {ev : List ε}

/-- A step that loses nothing. -/
theorem Disciplined.of_keeps (h : Transfers (ev.flatMap entries) (owned s) (owned s'))
    (hspoiled : Spoiled (tr ++ ev) s' ↔ Spoiled tr s) (hfine : ¬ Fails s ev s') :
    Disciplined entries owned Spoiled Fails tr s ev s' := by
  refine ⟨0, by rwa [add_zero], ?_⟩
  rw [hspoiled]
  simp only [hfine, or_false, ne_eq, not_true_eq_false]

/-- A step that fails. -/
theorem Disciplined.of_fails (leak : Multiset ρ)
    (h : Transfers (ev.flatMap entries) (owned s) (owned s' + leak))
    (hbad : Spoiled (tr ++ ev) s' ∨ leak ≠ 0) (hfails : Fails s ev s') :
    Disciplined entries owned Spoiled Fails tr s ev s' :=
  ⟨leak, h, iff_of_true hbad (.inr hfails)⟩

end Steps

/-- What is owned is held, and something may be lost. -/
theorem Discipline.held (hd : Discipline M entries owned Spoiled Fails) (h : M.Run tr s) :
    ∃ lost, settle (tr.flatMap entries) = some (owned s + lost) := by
  induction h with
  | start hs =>
    refine ⟨0, ?_⟩
    rw [(hd.init _ hs).1]
    rfl
  | @step tr ev s s' _ hs ih =>
    obtain ⟨lost, hlost⟩ := ih
    obtain ⟨leak, htransfer, -⟩ := hd.step tr s ev s' hs
    refine ⟨leak + lost, ?_⟩
    rw [List.flatMap_append, ← add_assoc]
    exact htransfer _ lost hlost

/-- A step keeps all accounted for if and only if it does not fail, and never makes up
for what was lost before. -/
theorem Discipline.accounted_step_iff (hd : Discipline M entries owned Spoiled Fails)
    (h : M.Run tr s) {ev : List ε} {s' : σ} (hs : M.step s ev s') :
    Accounted entries owned Spoiled (tr ++ ev) s' ↔
      Accounted entries owned Spoiled tr s ∧ ¬ Fails s ev s' := by
  obtain ⟨lost, hlost⟩ := hd.held h
  obtain ⟨leak, htransfer, hiff⟩ := hd.step tr s ev s' hs
  have hnext : settle ((tr ++ ev).flatMap entries) = some (owned s' + (leak + lost)) := by
    rw [List.flatMap_append, ← add_assoc]
    exact htransfer _ lost hlost
  constructor
  · rintro ⟨hunspoiled, hheld⟩
    rw [hnext, Option.some.injEq, add_eq_left] at hheld
    have hleak : leak = 0 := Multiset.le_zero.mp (hheld ▸ Multiset.le_add_right leak lost)
    have hlost0 : lost = 0 := Multiset.le_zero.mp (hheld ▸ Multiset.le_add_left lost leak)
    subst hleak hlost0
    have hfine : ¬ (Spoiled tr s ∨ Fails s ev s') := fun hbad =>
      (hiff.mpr hbad).elim hunspoiled fun hne => hne rfl
    rw [not_or] at hfine
    exact ⟨⟨hfine.1, by rw [hlost, add_zero]⟩, hfine.2⟩
  · rintro ⟨⟨hunspoiled, hheld⟩, hfine⟩
    have hgood : ¬ (Spoiled (tr ++ ev) s' ∨ leak ≠ 0) := fun hbad =>
      (hiff.mp hbad).elim hunspoiled hfine
    rw [not_or, not_not] at hgood
    rw [hlost, Option.some.injEq, add_eq_left] at hheld
    refine ⟨hgood.1, ?_⟩
    rw [hnext, hgood.2, hheld, add_zero, add_zero]

/-- The runs in which all is accounted for are those without a step that fails. -/
theorem Discipline.accounted_iff (hd : Discipline M entries owned Spoiled Fails) :
    M.Run tr s ∧ Accounted entries owned Spoiled tr s ↔
      M.RunBy (fun s ev s' => ¬ Fails s ev s') tr s := by
  constructor
  · rintro ⟨h, hacc⟩
    induction h with
    | start hs => exact .start hs
    | step hr hs ih =>
      obtain ⟨hbefore, hfine⟩ := (hd.accounted_step_iff hr hs).mp hacc
      exact (ih hbefore).step hs hfine
  · intro h
    refine ⟨h.run, ?_⟩
    induction h with
    | start hs =>
      obtain ⟨hzero, hunspoiled⟩ := hd.init _ hs
      refine ⟨hunspoiled, ?_⟩
      rw [hzero]
      rfl
    | step hr hs hfine ih => exact (hd.accounted_step_iff hr.run hs).mpr ⟨ih, hfine⟩

/-- Where nothing is owned, everything has been released, and once. -/
theorem Accounted.balanced (h : Accounted entries owned Spoiled tr s) (hs : owned s = 0) :
    Balanced (tr.flatMap entries) :=
  (Ledger.balanced_iff h.held).mpr hs

end Systems

end Ownership
