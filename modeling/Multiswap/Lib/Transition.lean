import Mathlib.Data.List.Basic

/-!
# Transition systems with observable runs

A system has initial states and steps that may emit events. A run collects the
events in order, so that a property of what an observer sees is a property of
the trace, and an invariant may relate the trace to the state reached.
-/

namespace Transition

universe u v

/-- A system whose steps emit a (possibly empty) list of events. -/
structure System (σ : Type u) (ε : Type v) where
  init : σ → Prop
  step : σ → List ε → σ → Prop

namespace System

variable {σ : Type u} {ε : Type v} (M : System σ ε)

/-- A run from an initial state, with the events it emitted. -/
inductive Run : List ε → σ → Prop
  | start {s : σ} : M.init s → Run [] s
  | step {tr ev : List ε} {s s' : σ} : Run tr s → M.step s ev s' → Run (tr ++ ev) s'

/-- The states that some run reaches. -/
def Reachable (s : σ) : Prop := ∃ tr, M.Run tr s

/-- A run all of whose steps satisfy `R`. -/
inductive RunBy (R : σ → List ε → σ → Prop) : List ε → σ → Prop
  | start {s : σ} : M.init s → RunBy R [] s
  | step {tr ev : List ε} {s s' : σ} : RunBy R tr s → M.step s ev s' → R s ev s' →
      RunBy R (tr ++ ev) s'

variable {M}

theorem RunBy.run {R : σ → List ε → σ → Prop} {tr : List ε} {s : σ} (h : M.RunBy R tr s) :
    M.Run tr s := by
  induction h with
  | start hs => exact .start hs
  | step _ hs _ ih => exact ih.step hs

/-- Invariance with history: the invariant may mention the events emitted so far. -/
theorem Run.invariant {I : List ε → σ → Prop} (hinit : ∀ s, M.init s → I [] s)
    (hstep : ∀ tr s ev s', M.Run tr s → I tr s → M.step s ev s' → I (tr ++ ev) s')
    {tr : List ε} {s : σ} (h : M.Run tr s) : I tr s := by
  induction h with
  | start hs => exact hinit _ hs
  | step hr hs ih => exact hstep _ _ _ _ hr ih hs

/-- Invariance over reachable states. -/
theorem Reachable.invariant {I : σ → Prop} (hinit : ∀ s, M.init s → I s)
    (hstep : ∀ s ev s', I s → M.step s ev s' → I s') {s : σ} (h : M.Reachable s) : I s := by
  obtain ⟨tr, hr⟩ := h
  exact hr.invariant (I := fun _ s => I s) hinit fun _ s ev s' _ hi hs => hstep s ev s' hi hs

section Actions

variable {α : Type u} (init : σ → Prop) (act : σ → α → Option (List ε × σ))

/-- The system that takes, at every step, an action that is enabled. -/
def ofActions : System σ ε where
  init := init
  step s ev s' := ∃ a, act s a = some (ev, s')

/-- Take some actions, one after the other. -/
def replay (s : σ) : List α → Option (List ε × σ)
  | [] => some ([], s)
  | a :: rest =>
    match act s a with
    | none => none
    | some (ev, s₁) => (replay s₁ rest).map fun r => (ev ++ r.1, r.2)

variable {init act}

theorem Run.replay {tr ev : List ε} {s s' : σ} {as : List α} (h : (ofActions init act).Run tr s)
    (hr : System.replay act s as = some (ev, s')) : (ofActions init act).Run (tr ++ ev) s' := by
  induction as generalizing tr ev s with
  | nil =>
    cases hr
    simpa using h
  | cons a rest ih =>
    cases ha : act s a with
    | none => simp [System.replay, ha] at hr
    | some r =>
      obtain ⟨ev₁, s₁⟩ := r
      simp only [System.replay, ha, Option.map_eq_some_iff, Prod.mk.injEq] at hr
      obtain ⟨⟨ev₂, s₂⟩, hrest, rfl, rfl⟩ := hr
      rw [← List.append_assoc]
      exact ih (h.step ⟨a, ha⟩) hrest

/-- What holds after some actions from an initial state holds at the end of a run. -/
theorem exists_run_of_replay {s : σ} (hs : init s) (as : List α) (p : List ε → σ → Prop)
    [∀ tr s, Decidable (p tr s)]
    (hp : (System.replay act s as).any (fun r => decide (p r.1 r.2)) = true) :
    ∃ tr s', (ofActions init act).Run tr s' ∧ p tr s' := by
  obtain ⟨r, hr, hp⟩ := (Option.any_eq_true _ _).mp hp
  exact ⟨r.1, r.2, by simpa using Run.replay (.start hs) hr, of_decide_eq_true hp⟩

end Actions

/-- A run cut at one of its events: the step that emitted the event starts in a
state reached by a run whose trace is a prefix of what came before. -/
theorem Run.split_event {tr pre post : List ε} {e : ε} {s : σ} (h : M.Run tr s)
    (ht : tr = pre ++ e :: post) :
    ∃ tr₀ ev s₀ s₁ k, M.Run tr₀ s₀ ∧ M.step s₀ ev s₁ ∧ ev[k]? = some e ∧
      pre = tr₀ ++ ev.take k := by
  induction h generalizing post with
  | start => simp at ht
  | @step tr ev s s' hr hs ih =>
    by_cases hlen : pre.length < tr.length
    · have hpre : tr = pre ++ e :: (tr.drop (pre.length + 1)) := by
        have htake := congrArg (List.take (pre.length + 1)) ht
        rw [List.take_append_of_le_length (by omega)] at htake
        simp only [List.take_append, List.take_of_length_le (Nat.le_add_right _ _),
          Nat.add_sub_cancel_left, List.take_succ_cons, List.take_zero] at htake
        conv_lhs => rw [← List.take_append_drop (pre.length + 1) tr, htake]
        simp
      exact ih hpre
    · have hk : (tr ++ ev)[pre.length]? = some e := by rw [ht]; simp
      rw [List.getElem?_append_right (by omega)] at hk
      refine ⟨tr, ev, s, s', pre.length - tr.length, hr, hs, hk, ?_⟩
      have htake := congrArg (List.take pre.length) ht
      rw [List.take_append, List.take_of_length_le (by omega)] at htake
      simpa using htake.symm

end System

end Transition
