import Multiswap.Concurrent.Defs
import Multiswap.Scheduler.Select

/-!
# A call that runs alone

Letting one call take all the steps is one of the interleavings. For a store it
computes what `sswap_scheduler_write` computes, so the atomic steps and the
sequential function are the same code cut in two ways.
-/

namespace Multiswap.Concurrent

variable {α : Type} (cfg : Config) (p : ℕ)

/-- Up to `k` steps of the call of `p`, until it returns. -/
def solo : ℕ → State α → Except Fault (State α × List (Event α))
  | 0, s => .ok (s, [])
  | k + 1, s =>
    match s.op p with
    | .idle => .ok (s, [])
    | _ => do
      let (op, sched, remote, ev) ← stepOp cfg p s
      let (s', ev') ← solo k ⟨sched, remote, Function.update s.op p op⟩
      return (s', ev ++ ev')

variable {cfg p}

theorem solo_idle {s : State α} (h : s.op p = .idle) (k : ℕ) : solo cfg p k s = .ok (s, []) := by
  cases k with
  | zero => rfl
  | succ k => simp [solo, h]

theorem solo_succ {s : State α} {op : Op α} {sched : Scheduler} {remote : ℕ → ℕ → α}
    {ev : List (Event α)} (hrun : s.op p ≠ .idle) (k : ℕ)
    (h : stepOp cfg p s = .ok (op, sched, remote, ev)) :
    solo cfg p (k + 1) s =
      (solo cfg p k ⟨sched, remote, Function.update s.op p op⟩).map fun r => (r.1, ev ++ r.2) := by
  rw [solo]
  split
  · next hop => exact absurd hop hrun
  · rw [h]
    simp only [bind, Except.bind, pure, Except.pure, Except.map]

/-- What a call does alone is a run of the system. -/
theorem Run.solo {n : ℕ} {remote : ℕ → ℕ → α} {k : ℕ} {tr ev : List (Event α)} {s s' : State α}
    (h : (system cfg n remote).Run tr s) (hs : solo cfg p k s = .ok (s', ev)) :
    (system cfg n remote).Run (tr ++ ev) s' := by
  induction k generalizing tr ev s with
  | zero =>
    simp only [Concurrent.solo, Except.ok.injEq, Prod.mk.injEq] at hs
    obtain ⟨rfl, rfl⟩ := hs
    simpa using h
  | succ k ih =>
    by_cases hidle : s.op p = .idle
    · rw [solo_idle hidle] at hs
      simp only [Except.ok.injEq, Prod.mk.injEq] at hs
      obtain ⟨rfl, rfl⟩ := hs
      simpa using h
    · cases hstep : stepOp cfg p s with
      | error e =>
        rw [Concurrent.solo] at hs
        split at hs
        · next hop => exact absurd hop hidle
        · rw [hstep] at hs
          simp [bind, Except.bind] at hs
      | ok r =>
        obtain ⟨op, sched, remote', ev₁⟩ := r
        rw [solo_succ hidle k hstep] at hs
        cases hrest : Concurrent.solo cfg p k ⟨sched, remote', Function.update s.op p op⟩ with
        | error e => simp [hrest, Except.map] at hs
        | ok r =>
          obtain ⟨s₂, ev₂⟩ := r
          simp only [hrest, Except.map, Except.ok.injEq, Prod.mk.injEq] at hs
          obtain ⟨rfl, rfl⟩ := hs
          have hone : (system cfg n remote).Run (tr ++ ev₁)
              ⟨sched, remote', Function.update s.op p op⟩ :=
            h.step (.advance p hidle hstep)
          simpa using ih hone hrest

section Sequential

variable (cfg p)

/-- One step of the call of `p` that emits nothing. -/
def SilentStep (s s' : State α) : Prop :=
  s.op p ≠ .idle ∧ ∃ op sched remote, stepOp cfg p s = .ok (op, sched, remote, []) ∧
    s' = ⟨sched, remote, Function.update s.op p op⟩

/-- Steps of the call of `p` that emit nothing. -/
def Silent : State α → State α → Prop := Relation.ReflTransGen (SilentStep cfg p)

variable {cfg p}

/-- A run of silent steps is what the call does alone first. -/
theorem Silent.solo {s s' : State α} (h : Silent cfg p s s') :
    ∃ k, ∀ j, solo cfg p (k + j) s = solo cfg p j s' := by
  induction h using Relation.ReflTransGen.head_induction_on with
  | refl => exact ⟨0, fun j => by rw [Nat.zero_add]⟩
  | head hstep _ ih =>
    obtain ⟨hrun, op, sched, remote, hok, rfl⟩ := hstep
    obtain ⟨k, hk⟩ := ih
    refine ⟨k + 1, fun j => ?_⟩
    rw [show k + 1 + j = k + j + 1 by omega, solo_succ hrun _ hok, hk]
    cases Concurrent.solo cfg p j s' <;> simp [Except.map]

variable {page : α} {second : Bool} {flags : RemoteMappingFlags} {sched : Scheduler}
  {remote : ℕ → ℕ → α} {ops : ℕ → Op α}

theorem silentStep {op op' : Op α} {sched' : Scheduler} (hrun : op ≠ .idle)
    (h : stepOp cfg p ⟨sched, remote, Function.update ops p op⟩ = .ok (op', sched', remote, [])) :
    SilentStep cfg p ⟨sched, remote, Function.update ops p op⟩
      ⟨sched', remote, Function.update ops p op'⟩ :=
  ⟨by simpa using hrun, op', sched', remote, h, by simp⟩

/-- The atomic rounds of a search that is not disturbed are the loop of
`sswap_select_slot`. -/
theorem selectLoop_silent (page : α) (flags : RemoteMappingFlags) (sched : Scheduler)
    (remote : ℕ → ℕ → α) (ops : ℕ → Op α) (hmap : mapAt cfg (attemptNode p second) 0 = .ok ())
    (fuel i offset : ℕ) (hfuel : i + fuel = cfg.nrRemoteMaps (attemptNode p second)) :
    (∃ slot s', selectLoop sched (attemptNode p second)
        (sched.remoteMap (attemptNode p second) 0).nrPages flags fuel i offset =
          (slot, { flags with mappingSuccess := true }, s') ∧
      Silent cfg p ⟨sched, remote, Function.update ops p (.storeProbe page second flags i offset)⟩
        ⟨s', remote, Function.update ops p (afterSelect p page second flags slot)⟩) ∨
    (selectLoop sched (attemptNode p second)
        (sched.remoteMap (attemptNode p second) 0).nrPages flags fuel i offset =
          (0, { flags with mappingFull := true }, sched) ∧
      Silent cfg p ⟨sched, remote, Function.update ops p (.storeProbe page second flags i offset)⟩
        ⟨sched, remote, Function.update ops p (afterFull p page second flags)⟩) := by
  have hone : ∀ i offset, SilentStep cfg p
      ⟨sched, remote, Function.update ops p (.storeProbe page second flags i offset)⟩
      ⟨(probeStep cfg p page second flags i offset sched).2, remote,
        Function.update ops p (probeStep cfg p page second flags i offset sched).1⟩ := by
    intro i offset
    apply silentStep (by simp)
    simp [stepOp, hmap, bind, Except.bind, pure, Except.pure]
  induction fuel generalizing i offset with
  | zero =>
    refine .inr ⟨rfl, ?_⟩
    have h := hone i offset
    rw [probeStep, if_neg (by omega)] at h
    exact .single h
  | succ fuel ih =>
    have h := hone i offset
    rw [probeStep, if_pos (by omega)] at h
    rw [selectLoop]
    cases hprobe : sched.probe (attemptNode p second) i
        (sched.remoteMap (attemptNode p second) 0).nrPages with
    | some r =>
      obtain ⟨slot, s'⟩ := r
      simp only [hprobe] at h
      exact .inl ⟨slot + offset, s', rfl, .single h⟩
    | none =>
      simp only [hprobe] at h
      rcases ih (i + 1) _ (by omega) with ⟨slot, s', hloop, hsil⟩ | ⟨hloop, hsil⟩
      · exact .inl ⟨slot, s', hloop, .head h hsil⟩
      · exact .inr ⟨hloop, .head h hsil⟩

/-- Where a call stands when its current `sswap_add_mapping` has returned. -/
def afterAdd (p : ℕ) (page : α) (second : Bool) (flags : RemoteMappingFlags) (ret : ℕ) : Op α :=
  if flags.mappingFull = true ∧ second = false then .storeLoad page true flags
  else .storeWrite page (attemptNode p second) ret

theorem placePage_silent {ret : ℕ} {flags' : RemoteMappingFlags} {sched' : Scheduler}
    (hq : flags.mappingFull = second)
    (h : placePage cfg false (attemptNode p second) p flags sched = .ok (ret, flags', sched')) :
    Silent cfg p ⟨sched, remote, Function.update ops p (.storeProbe page second flags 0 0)⟩
      ⟨sched', remote, Function.update ops p (afterAdd p page second flags' ret)⟩ := by
  cases hmap : mapAt cfg (attemptNode p second) 0 with
  | error e => simp [placePage, sswapSelectSlot, hmap, bind, Except.bind] at h
  | ok u =>
    have hsel : sswapSelectSlot cfg (attemptNode p second) flags sched =
        .ok (selectLoop sched (attemptNode p second)
          (sched.remoteMap (attemptNode p second) 0).nrPages flags
          (cfg.nrRemoteMaps (attemptNode p second)) 0 0) := by
      simp only [sswapSelectSlot, hmap, bind, Except.bind, pure, Except.pure]
    rcases selectLoop_silent page flags sched remote ops hmap
      (cfg.nrRemoteMaps (attemptNode p second)) 0 0 (Nat.zero_add _) with
      ⟨slot, s', hloop, hsil⟩ | ⟨hloop, hsil⟩ <;> rw [hloop] at hsel
    · cases second with
      | true =>
        rw [placePage_full hsel hq] at h
        simp only [Except.ok.injEq, Prod.mk.injEq] at h
        obtain ⟨rfl, rfl, rfl⟩ := h
        simpa [afterSelect, afterAdd, hq] using hsil
      | false =>
        rw [placePage_found hsel hq] at h
        simp only [Except.ok.injEq, Prod.mk.injEq] at h
        obtain ⟨rfl, rfl, rfl⟩ := h
        rw [afterSelect, hq, if_neg Bool.false_ne_true] at hsil
        rw [afterAdd, hq, if_neg (by simp)]
        refine hsil.tail (silentStep (by simp) ?_)
        simp [stepOp, slotEntry]
    · rw [placePage_full hsel rfl] at h
      simp only [Except.ok.injEq, Prod.mk.injEq] at h
      obtain ⟨rfl, rfl, rfl⟩ := h
      cases second <;> simpa [afterFull, afterAdd] using hsil

theorem sswapAddMapping_silent (page : α) (remote : ℕ → ℕ → α) (ops : ℕ → Op α) {ret : ℕ}
    {flags' : RemoteMappingFlags} {sched' : Scheduler}
    (hq : flags.mappingFull = second)
    (h : sswapAddMapping cfg false (attemptNode p second) p flags sched = .ok (ret, flags', sched')) :
    Silent cfg p ⟨sched, remote, Function.update ops p (.storeLoad page second flags)⟩
      ⟨sched', remote, Function.update ops p (afterAdd p page second flags' ret)⟩ := by
  by_cases hr : cfg.InRange p
  · by_cases he : sched.xaLoad (p >>> remoteAddressSpaceShift) p = 0
    · rw [sswapAddMapping_none hr (decodeEntry_eq_none.mpr he)] at h
      refine .head (silentStep (by simp) ?_) (placePage_silent hq h)
      simp [stepOp, spaceOf_ok hr, bind, Except.bind, pure, Except.pure, he]
    · cases hrel : releaseOld cfg (sched.xaLoad (p >>> remoteAddressSpaceShift) p) sched with
      | error e =>
        rw [sswapAddMapping_eq hr, if_pos he, hrel] at h
        cases h
      | ok s₁ =>
        have h' : placePage cfg false (attemptNode p second) p flags s₁ =
            .ok (ret, flags', sched') := by
          rw [sswapAddMapping_eq hr, if_pos he, hrel] at h
          exact h
        have hfound : SilentStep cfg p
            ⟨sched, remote, Function.update ops p (.storeLoad page second flags)⟩
            ⟨sched, remote, Function.update ops p (.storeClear page second flags
              (sched.xaLoad (p >>> remoteAddressSpaceShift) p))⟩ :=
          silentStep (by simp) (by
            simp [stepOp, spaceOf_ok hr, bind, Except.bind, pure, Except.pure, he])
        refine .head hfound (.head (silentStep (by simp) ?_) (placePage_silent hq h'))
        simp [stepOp, bind, Except.bind, pure, Except.pure, hrel]
  · rw [sswapAddMapping_outOfRange hr] at h
    cases h

/-- The silent steps of a store that runs alone compute `sswap_scheduler_write`. -/
theorem sswapSchedulerWrite_silent {ret type : ℕ} {sched' : Scheduler}
    (h : sswapSchedulerWrite cfg false p sched = .ok (ret, type, sched')) :
    Silent cfg p ⟨sched, remote, Function.update ops p (.storeLoad page false .clear)⟩
      ⟨sched', remote, Function.update ops p (.storeWrite page type ret)⟩ := by
  have hfirst : preferredNode p = attemptNode p false := rfl
  have hsecond : otherNode p = attemptNode p true := rfl
  rw [sswapSchedulerWrite_eq, hfirst, hsecond] at h
  cases hadd : sswapAddMapping cfg false (attemptNode p false) p .clear sched with
  | error e => simp [hadd, bind, Except.bind] at h
  | ok r =>
    obtain ⟨ret₁, flags₁, s₁⟩ := r
    have hsil : Silent cfg p ⟨sched, remote, Function.update ops p (.storeLoad page false .clear)⟩ _ :=
      sswapAddMapping_silent page remote ops rfl hadd
    cases hfull : flags₁.mappingFull with
    | false =>
      simp only [hadd, bind, Except.bind, hfull, Bool.false_eq_true, if_false, pure, Except.pure,
        Except.ok.injEq, Prod.mk.injEq] at h
      obtain ⟨rfl, rfl, rfl⟩ := h
      simpa [afterAdd, hfull] using hsil
    | true =>
      cases hadd₂ : sswapAddMapping cfg false (attemptNode p true) p flags₁ s₁ with
      | error e => simp [hadd, hadd₂, bind, Except.bind, hfull] at h
      | ok r =>
        obtain ⟨ret₂, flags₂, s₂⟩ := r
        simp only [hadd, hadd₂, bind, Except.bind, hfull, if_true, pure, Except.pure,
          Except.ok.injEq, Prod.mk.injEq] at h
        obtain ⟨rfl, rfl, rfl⟩ := h
        have hsil₂ : Silent cfg p ⟨s₁, remote, Function.update ops p (.storeLoad page true flags₁)⟩ _ :=
          sswapAddMapping_silent page remote ops hfull hadd₂
        simp only [afterAdd, hfull, and_self, if_true] at hsil
        rw [afterAdd, if_neg (by simp)] at hsil₂
        exact Relation.ReflTransGen.trans hsil hsil₂

end Sequential

end Multiswap.Concurrent
