import Multiswap.Lib.Simulation
import Multiswap.Queue.Stages

/-!
# Calls can always return

No caller ever waits for something that cannot happen any more, as long as no post has
failed: the holder of `cq_lock` can give it back, the hardware can complete what is in
flight, and a caller that drains the queue can reap it all. After a failed post the
counter stays above zero, and no call on the queue returns again.
-/

namespace Multiswap.Queue

open Rdma (WcStatus HandlerStep)
open Transition.System (Steps)

variable {ι : Type}

/-- A call is running and can go on. With a mapping at address 0 only `BUG_ON` is left. -/
def Pc.Live : Pc → Prop
  | .idle | .crashed _ => False
  | .raise _ r => r.dma ≠ 0
  | _ => True

/-- The caller is inside `ib_process_cq_direct`. -/
def Pc.polling : Pc → Bool
  | .poll .. | .handle .. => true
  | _ => false

/-- The lock is held by the caller that polls. -/
def Locked (s : State ι) : Prop := ∀ i, (s.pc i).polling = true ↔ s.cqLock = some i

/-- Nothing is posted, and the lock is free. -/
structure Calm (s : State ι) : Prop where
  pending : s.pending = 0
  cqLock : s.cqLock = none
  inflight : s.inflight = []
  cq : s.cq = []

variable {s s' s₁ s₂ : State ι} {tr ev : List (Event ι)} {i j : ι}

/-- Running calls are still running, perhaps in a polling loop now. -/
def Keeps (s s' : State ι) : Prop :=
  ∀ i, s'.pc i = s.pc i ∨ ((s.pc i).Live ∧ ∃ c l, s'.pc i = .loop c l)

theorem Keeps.trans (h : Keeps s s₁) (h' : Keeps s₁ s₂) : Keeps s s₂ := by
  intro i
  rcases h' i with heq | ⟨hlive, hloop⟩
  · rw [heq]
    exact h i
  · rcases h i with heq | ⟨hlive', -⟩
    · exact .inr ⟨heq ▸ hlive, hloop⟩
    · exact .inr ⟨hlive', hloop⟩

theorem Keeps.live (h : Keeps s s') (hi : (s.pc i).Live) : (s'.pc i).Live := by
  rcases h i with heq | ⟨-, c, l, heq⟩
  · rwa [heq]
  · rw [heq]
    trivial

theorem failedPosts_of_no_failure (h : ∀ e ∈ ev, ¬ e.Failure) : failedPosts ev = 0 := by
  rw [failedPosts_eq_zero]
  intro i r ret hmem
  exact h _ hmem trivial

variable [DecidableEq ι]

/-! ## Who holds the lock -/

theorem Locked.move (h : Locked s) {pc : Pc} (hpc : s'.pc = Function.update s.pc i pc)
    (hlock : s'.cqLock = s.cqLock) (hsame : pc.polling = (s.pc i).polling) : Locked s' := by
  intro k
  rw [hlock, ← h k, hpc]
  by_cases hk : k = i
  · subst hk
    rw [Function.update_self, hsame]
  · rw [Function.update_of_ne hk]

theorem afterAdd_polling (c : Call) (ret : ℤ) : (afterAdd c ret).polling = false :=
  afterAdd_of (P := fun pc => pc.polling = false) rfl fun _ _ => rfl

theorem Locked.step (h : Locked s) (hs : Step s ev s') : Locked s' := by
  cases hs with
  | call i _ hpc | pressurePass i hpc | pressureBug i hpc | pressurePoll i hpc | loopPoll i hpc
  | targetLeave i hpc | drainLeave i hpc | reap i hpc | handle i hpc | handlerDone i hpc
  | alloc i hpc | allocFail i hpc | map i _ hpc | raiseBug i hpc | raise i hpc =>
    exact h.move (i := i) rfl rfl (by rw [hpc]; rfl)
  | mapFail i hpc | post i hpc | postFail i _ hpc =>
    exact h.move (i := i) rfl rfl (by rw [afterAdd_polling, hpc]; rfl)
  | complete _ _ => exact h
  | @lock i c l hpc hfree =>
    intro k
    have hk := h k
    by_cases hki : k = i
    · subst hki
      simp [State.goto, Pc.polling]
    · rw [hfree] at hk
      simpa [State.goto, hki, Ne.symm hki] using hk
  | @unlock i c l taken hpc =>
    intro k
    have hheld : s.cqLock = some i := (h i).mp (by rw [hpc]; rfl)
    have hk := h k
    by_cases hki : k = i
    · subst hki
      simp [State.goto, Pc.polling]
    · rw [hheld] at hk
      simpa [State.goto, hki, Ne.symm hki] using hk

theorem run_locked (h : (system ι).Run tr s) : Locked s :=
  h.invariant (I := fun _ s => Locked s)
    (fun s hs => by
      subst hs
      simp [Locked, State.initial, Pc.polling])
    fun _ _ _ _ _ hl hs => hl.step hs

/-! ## What a caller can do by itself -/

/-- The state with caller `i` moved, and with this counter, lock and completions. -/
def State.put (s : State ι) (i : ι) (pc : Pc) (pending : ℤ) (cqLock : Option ι)
    (cq : List (Req × WcStatus)) : State ι :=
  { s with pending := pending, cqLock := cqLock, cq := cq, pc := Function.update s.pc i pc }

theorem put_self (s : State ι) (i : ι) : s.put i (s.pc i) s.pending s.cqLock s.cq = s := by
  simp [State.put]

variable {pc pc' : Pc} {a a' : ℤ} {b b' : Option ι} {q q' : List (Req × WcStatus)}

@[simp] theorem put_pc (s : State ι) (i : ι) : (s.put i pc a b q).pc i = pc :=
  Function.update_self ..

/-- `s'` can be reached by steps inside one call. -/
def Reaches (s s' : State ι) : Prop := ∃ ev, (∀ e ∈ ev, e.Inside) ∧ Steps Internal s ev s'

theorem Reaches.refl (s : State ι) : Reaches s s := ⟨[], by simp, .refl s⟩

theorem Reaches.trans (h : Reaches s s₁) (h' : Reaches s₁ s₂) : Reaches s s₂ := by
  obtain ⟨ev, hin, hs⟩ := h
  obtain ⟨ev', hin', hs'⟩ := h'
  refine ⟨ev ++ ev', fun e he => ?_, hs.trans hs'⟩
  rcases List.mem_append.mp he with he | he
  · exact hin e he
  · exact hin' e he

/-- One step of a running caller. -/
theorem Reaches.step (hs : Step s ev s') (hpc : s'.pc = Function.update s.pc i pc)
    (hrun : s.pc i ≠ .idle) (hlen : s'.cq.length ≤ s.cq.length) (hev : ∀ e ∈ ev, e.Inside) :
    Reaches s s' := by
  refine ⟨ev, hev, .single ⟨hs, fun k r hk => hev _ hk, fun k c ret hk => hev _ hk, ?_, hlen⟩⟩
  intro k hk
  by_cases hki : k = i
  · subst hki
    exact absurd hk hrun
  · rw [hpc, Function.update_of_ne hki]
    exact hk

/-- The same with the states written out. -/
theorem Reaches.one (hs : Step (s.put i pc a b q) ev s') (hto : s' = s.put i pc' a' b' q')
    (hpc : pc ≠ .idle) (hlen : q'.length ≤ q.length) (hev : ∀ e ∈ ev, e.Inside) :
    Reaches (s.put i pc a b q) (s.put i pc' a' b' q') := by
  subst hto
  have hmoved : (s.put i pc' a' b' q').pc = Function.update (s.put i pc a b q).pc i pc' := by
    simp [State.put]
  exact .step hs hmoved (by rwa [put_pc]) hlen hev

section Polling

variable {c : Call} {l : Loop} {taken : ℕ} {r : Req} {status : WcStatus}

/-- The rest of a completion handler. -/
theorem reaches_handled (left : List HandlerStep) (a : ℤ) :
    Reaches (s.put i (.handle c l taken r left) a b q)
      (s.put i (.poll c l taken) (a - left.count .decPending) b q) := by
  induction left generalizing a with
  | nil =>
    refine .one (.handlerDone i (put_pc ..)) ?_ (by simp) le_rfl (by simp)
    simp [State.put, State.goto]
  | cons k left ih =>
    have hone : Reaches (s.put i (.handle c l taken r (k :: left)) a b q)
        (s.put i (.handle c l taken r left) (lowered a k) b q) := by
      refine .one (.handle i (put_pc ..)) ?_ (by simp) le_rfl (by simp [Event.Inside])
      simp [State.put, State.goto]
    have hcount : lowered a k - left.count .decPending = a - (k :: left).count .decPending := by
      cases k <;> simp [lowered]
      omega
    rw [← hcount]
    exact hone.trans (ih _)

/-- A completion is reaped and handled. -/
theorem reaches_reaped (htaken : taken < l.budget c) :
    Reaches (s.put i (.poll c l taken) a b ((r, status) :: q))
      (s.put i (.poll c l (taken + 1)) (a - 1) b q) := by
  have hreap : Reaches (s.put i (.poll c l taken) a b ((r, status) :: q))
      (s.put i (.handle c l (taken + 1) r r.call.op.done) a b q) := by
    refine .one (.reap i (put_pc ..) htaken rfl) ?_ (by simp) (by simp) (by simp)
    simp [State.put, State.goto]
  have hcount : a - (r.call.op.done.count .decPending : ℕ) = a - 1 := by
    rw [count_done]
    rfl
  rw [← hcount]
  exact hreap.trans (reaches_handled _ _)

theorem reaches_locked : Reaches (s.put i (.lock c l) a none q) (s.put i (.poll c l 0) a (some i) q) := by
  refine .one (.lock i (put_pc ..) rfl) ?_ (by simp) le_rfl (by simp)
  simp [State.put, State.goto]

theorem reaches_unlocked :
    Reaches (s.put i (.poll c l taken) a b q) (s.put i (.loop c (l.polled taken)) a none q) := by
  refine .one (.unlock i (put_pc ..)) ?_ (by simp) le_rfl (by simp)
  simp [State.put, State.goto]

/-- A caller in `drain_queue` reaps all that has been completed. -/
theorem reaches_drained {ret : ℤ} (q : List (Req × WcStatus)) (a : ℤ) (ha : q.length ≤ a) :
    Reaches (s.put i (.loop c (.drain ret)) a none q)
      (s.put i (.loop c (.drain ret)) (a - q.length) none []) := by
  induction q generalizing a with
  | nil => simpa using Reaches.refl _
  | cons w q ih =>
    rw [List.length_cons] at ha
    have hpoll : Reaches (s.put i (.loop c (.drain ret)) a none (w :: q))
        (s.put i (.lock c (.drain ret)) a none (w :: q)) := by
      have hkeeps : (Loop.drain ret).KeepsPolling c a := by
        show a > 0
        omega
      refine .one (.loopPoll i (put_pc ..) hkeeps) ?_ (by simp) le_rfl (by simp)
      simp [State.put, State.goto]
    have hround := (hpoll.trans reaches_locked).trans
      ((reaches_reaped (by simp [Loop.budget])).trans reaches_unlocked)
    have hlast : a - 1 - q.length = a - (w :: q).length := by simp; omega
    rw [← hlast]
    exact hround.trans (ih (a - 1) (by omega))

end Polling

/-! ## Coming to rest -/

/-- A step that starts no call. -/
structure Onward (s : State ι) (ev : List (Event ι)) (s' : State ι) : Prop where
  step : Step s ev s'
  idle : ∀ i, s.pc i = .idle → s'.pc i = .idle

/-- The calls of the queue can go on from `s` to `s'` without a failure. -/
def Proceeds (s s' : State ι) : Prop := ∃ ev, (∀ e ∈ ev, ¬ e.Failure) ∧ Steps Onward s ev s'

theorem Proceeds.refl (s : State ι) : Proceeds s s := ⟨[], by simp, .refl s⟩

theorem Proceeds.trans (h : Proceeds s s₁) (h' : Proceeds s₁ s₂) : Proceeds s s₂ := by
  obtain ⟨ev, hev, hs⟩ := h
  obtain ⟨ev', hev', hs'⟩ := h'
  refine ⟨ev ++ ev', fun e he => ?_, hs.trans hs'⟩
  rcases List.mem_append.mp he with he | he
  · exact hev e he
  · exact hev' e he

/-- One step of a running caller. -/
theorem Proceeds.step (hs : Step s ev s') (hpc : s'.pc = Function.update s.pc i pc)
    (hrun : s.pc i ≠ .idle) (hev : ∀ e ∈ ev, ¬ e.Failure) : Proceeds s s' := by
  refine ⟨ev, hev, .single ⟨hs, fun k hk => ?_⟩⟩
  have hki : k ≠ i := by
    rintro rfl
    exact hrun hk
  rw [hpc, Function.update_of_ne hki]
  exact hk

/-- One step of the hardware. -/
theorem Proceeds.hardware (hs : Step s [] s') (hpc : s'.pc = s.pc) : Proceeds s s' :=
  ⟨[], by simp, .single ⟨hs, fun k hk => by rw [hpc, hk]⟩⟩

theorem Reaches.proceeds (h : Reaches s s') : Proceeds s s' := by
  obtain ⟨ev, hin, hs⟩ := h
  refine ⟨ev, fun e he => ?_, hs.mono fun _ _ _ hi => ⟨hi.step, hi.idle⟩⟩
  have hinside := hin e he
  cases e <;> first | exact id | exact hinside.elim

theorem Keeps.move {c : Call} {l : Loop} (hpc : s'.pc = Function.update s.pc i (.loop c l))
    (hlive : (s.pc i).Live) : Keeps s s' := by
  intro k
  by_cases hk : k = i
  · subst hk
    exact .inr ⟨hlive, c, l, by rw [hpc, Function.update_self]⟩
  · exact .inl (by rw [hpc, Function.update_of_ne hk])

/-- The holder of the lock can give it back. -/
theorem proceeds_unlocked (hl : Locked s) : ∃ s', Proceeds s s' ∧ Keeps s s' ∧ s'.cqLock = none := by
  cases hlock : s.cqLock with
  | none => exact ⟨s, .refl s, fun i => .inl rfl, hlock⟩
  | some j =>
    have hpolling := (hl j).mpr hlock
    have hself := put_self s j
    cases hpc : s.pc j with
    | poll c l taken =>
      have hreach : Reaches (s.put j (.poll c l taken) s.pending s.cqLock s.cq) _ :=
        reaches_unlocked
      rw [← hpc, hself] at hreach
      exact ⟨_, hreach.proceeds, .move (i := j) rfl (by rw [hpc]; trivial), rfl⟩
    | handle c l taken r left =>
      have hreach : Reaches (s.put j (.handle c l taken r left) s.pending s.cqLock s.cq) _ :=
        (reaches_handled left _).trans reaches_unlocked
      rw [← hpc, hself] at hreach
      exact ⟨_, hreach.proceeds, .move (i := j) rfl (by rw [hpc]; trivial), rfl⟩
    | _ => simp [hpc, Pc.polling] at hpolling

/-- The hardware can complete all that is in flight. -/
theorem proceeds_completed (s : State ι) : ∃ s', Proceeds s s' ∧ s'.pc = s.pc ∧
    s'.cqLock = s.cqLock ∧ s'.inflight = [] := by
  generalize hk : s.inflight = rs
  induction rs generalizing s with
  | nil => exact ⟨s, .refl s, rfl, rfl, hk⟩
  | cons r rs ih =>
    have hin : s.inflight = [] ++ r :: rs := hk
    have hstep := Step.complete .success hin
    obtain ⟨s', hs', hpc, hlock, hempty⟩ := ih
      { s with inflight := [] ++ rs, cq := s.cq ++ [(r, .success)] } rfl
    exact ⟨s', (Proceeds.hardware hstep rfl).trans hs', hpc, hlock, hempty⟩

/-- Without a failure the run goes on to a run without a failed post. -/
theorem Proceeds.run (hp : Proceeds s s') (h : (system ι).Run tr s) (hok : failedPosts tr = 0) :
    ∃ tr', (system ι).Run tr' s' ∧ failedPosts tr' = 0 := by
  obtain ⟨ev, hev, hs⟩ := hp
  have hfailed : failedPosts (tr ++ ev) = failedPosts tr + failedPosts ev := List.countP_append
  exact ⟨tr ++ ev, h.steps (hs.mono fun _ _ _ ho => ho.step),
    by rw [hfailed, hok, failedPosts_of_no_failure hev]⟩

/-! ## Returning -/

/-- From a calm queue, the call of `i` can return and leave the queue calm. -/
def Returns (s : State ι) (i : ι) : Prop :=
  ∃ s', Proceeds s s' ∧ Calm s' ∧ s'.pc = Function.update s.pc i .idle

theorem Returns.of_proceeds (hs : Proceeds s s₁) {pc : Pc}
    (hpc : s₁.pc = Function.update s.pc i pc) (h : Returns s₁ i) : Returns s i := by
  obtain ⟨s', hp, hcalm, hpc'⟩ := h
  refine ⟨s', hs.trans hp, hcalm, ?_⟩
  rw [hpc', hpc, Function.update_idem]

theorem Returns.of_step (hs : Step s ev s₁) (hrun : s.pc i ≠ .idle) (hev : ∀ e ∈ ev, ¬ e.Failure)
    {pc : Pc} (hpc : s₁.pc = Function.update s.pc i pc) (h : Returns s₁ i) : Returns s i :=
  h.of_proceeds (.step hs hpc hrun hev) hpc

section Returning

variable {c : Call}

theorem returns_drain {ret : ℤ} (hc : Calm s) (hpc : s.pc i = .loop c (.drain ret)) :
    Returns s i := by
  have hleave : ¬ (Loop.drain ret).KeepsPolling c s.pending := by
    rw [hc.pending]
    exact lt_irrefl 0
  exact ⟨_, .step (.drainLeave i hpc hleave) rfl (by simp [hpc]) (by simp [Event.Failure]), ⟨hc.1, hc.2, hc.3, hc.4⟩, rfl⟩

theorem returns_raise {r : Req} (hc : Calm s) (hpc : s.pc i = .raise c r) (hdma : r.dma ≠ 0) :
    Returns s i := by
  have hraise : Proceeds s (s.put i (.post c r) 1 none []) := by
    have hto : { s.goto i (.post c r) with pending := s.pending + 1 } =
        s.put i (.post c r) 1 none [] := by
      simp [State.put, State.goto, hc.pending, hc.cqLock, hc.cq]
    rw [← hto]
    exact .step (i := i) (.raise i hpc hdma) rfl (by simp [hpc]) (by simp)
  have hpost : Proceeds (s.put i (.post c r) 1 none [])
      { s.put i (.loop c (.drain 0)) 1 none [] with inflight := s.inflight ++ [r] } := by
    have hto : { (s.put i (.post c r) 1 none []).goto i (afterAdd c 0) with
        inflight := s.inflight ++ [r] } =
          { s.put i (.loop c (.drain 0)) 1 none [] with inflight := s.inflight ++ [r] } := by
      simp [State.put, State.goto, afterAdd_zero]
    rw [← hto]
    exact .step (i := i) (.post i (put_pc ..)) rfl (by simp) (by simp [Event.Failure])
  have hcomplete : Proceeds
      { s.put i (.loop c (.drain 0)) 1 none [] with inflight := s.inflight ++ [r] }
      (s.put i (.loop c (.drain 0)) 1 none [(r, .success)]) := by
    have hto : { s.put i (.loop c (.drain 0)) 1 none [] with
        inflight := s.inflight ++ [], cq := [] ++ [(r, .success)] } =
          s.put i (.loop c (.drain 0)) 1 none [(r, .success)] := by
      simp [State.put]
    rw [← hto]
    exact .hardware (.complete .success rfl) rfl
  -- the caller reaps its own request
  have hdrain : Reaches (s.put i (.loop c (.drain 0)) 1 none [(r, .success)])
      (s.put i (.loop c (.drain 0)) 0 none []) := reaches_drained [(r, .success)] 1 le_rfl
  have hcalm : Calm (s.put i (.loop c (.drain 0)) 0 none []) := ⟨rfl, rfl, hc.3, rfl⟩
  have hall := ((hraise.trans hpost).trans hcomplete).trans hdrain.proceeds
  exact .of_proceeds hall rfl (returns_drain hcalm (put_pc ..))

theorem returns_map {id : ℕ} (hc : Calm s) (hpc : s.pc i = .map c id) : Returns s i := by
  refine .of_step (.map i 4096 hpc) (by simp [hpc]) (by simp [Event.Failure]) rfl ?_
  exact returns_raise ⟨hc.1, hc.2, hc.3, hc.4⟩ (Function.update_self ..) (Nat.succ_ne_zero _)

theorem returns_alloc (hc : Calm s) (hpc : s.pc i = .alloc c) : Returns s i := by
  refine .of_step (.alloc i hpc) (by simp [hpc]) (by simp [Event.Failure]) rfl ?_
  exact returns_map ⟨hc.1, hc.2, hc.3, hc.4⟩ (Function.update_self ..)

theorem returns_pressure (hc : Calm s) (hpc : s.pc i = .pressure c) : Returns s i := by
  have hpass := (loopsLeave_of_zero hc.pending c (.drain 0)).2
  refine .of_step (.pressurePass i hpc hpass) (by simp [hpc]) (by simp) rfl ?_
  exact returns_alloc ⟨hc.1, hc.2, hc.3, hc.4⟩ (Function.update_self ..)

theorem returns_loop {l : Loop} (hc : Calm s) (hpc : s.pc i = .loop c l) : Returns s i := by
  cases l with
  | drain ret => exact returns_drain hc hpc
  | target k =>
    refine .of_step (.targetLeave i hpc (loopsLeave_of_zero hc.pending c _).1) (by simp [hpc])
      (by simp) rfl ?_
    exact returns_pressure ⟨hc.1, hc.2, hc.3, hc.4⟩ (Function.update_self ..)

theorem returns_lock {l : Loop} (hc : Calm s) (hpc : s.pc i = .lock c l) : Returns s i := by
  refine .of_step (.lock i hpc hc.cqLock) (by simp [hpc]) (by simp) rfl ?_
  refine .of_step (.unlock i (Function.update_self ..)) (by simp [State.goto]) (by simp) rfl ?_
  exact returns_loop ⟨hc.1, rfl, hc.3, hc.4⟩ (Function.update_self ..)

end Returning

variable [Fintype ι]

/-- The callers between increment and post can post. -/
theorem proceeds_posted (hlock : s.cqLock = none) : ∃ s', Proceeds s s' ∧ Keeps s s' ∧
    s'.cqLock = none ∧ ∑ i, (s'.pc i).raised = 0 := by
  generalize hk : ∑ i, (s.pc i).raised = k
  induction k generalizing s with
  | zero => exact ⟨s, .refl s, fun i => .inl rfl, hlock, hk⟩
  | succ k ih =>
    obtain ⟨i, -, hi⟩ := Finset.exists_ne_zero_of_sum_ne_zero (by rw [hk]; exact Nat.succ_ne_zero k)
    cases hpc : s.pc i with
    | post c r =>
      have hstep := Step.post i hpc
      rw [afterAdd_zero] at hstep
      have hone : (s.pc i).raised = 1 := by
        rw [hpc]
        rfl
      have hsum : ∑ j, (Function.update s.pc i (.loop c (.drain 0)) j).raised = k := by
        have hupdate := sum_update Pc.raised s.pc i (.loop c (.drain 0))
        have hnone : (Pc.loop c (.drain 0)).raised = 0 := rfl
        omega
      obtain ⟨s', hs', hkeep, hlock', hzero⟩ := ih (s := { s.goto i (.loop c (.drain 0)) with
        inflight := s.inflight ++ [r] }) hlock hsum
      have hpost := Proceeds.step (i := i) hstep rfl (by simp [hpc]) (by simp [Event.Failure])
      refine ⟨s', hpost.trans hs', ?_, hlock', hzero⟩
      exact Keeps.trans (.move (i := i) rfl (by rw [hpc]; trivial)) hkeep
    | _ => simp [hpc, Pc.raised] at hi

/-- A caller that drains the queue can be found if something is left in it. -/
theorem exists_draining (h : (system ι).Run tr s) (hok : failedPosts tr = 0)
    (hlock : s.cqLock = none) (hraised : ∑ i, (s.pc i).raised = 0) (hpending : 0 < s.pending) :
    ∃ i c ret, s.pc i = .loop c (.drain ret) ∨ s.pc i = .lock c (.drain ret) := by
  have hawaited : Awaited 0 1 tr s := run_awaited le_rfl h
  unfold Awaited at hawaited
  have hsum : ∑ i, (s.pc i).waiting 0 ≠ 0 := by omega
  obtain ⟨i, -, hi⟩ := Finset.exists_ne_zero_of_sum_ne_zero hsum
  have hpoll : (s.pc i).polling = false := by
    by_contra hne
    have hheld := (run_locked h i).mp (by simpa using hne)
    rw [hlock] at hheld
    cases hheld
  have hpost : (s.pc i).raised = 0 := Finset.sum_eq_zero_iff.mp hraised i (Finset.mem_univ i)
  cases hpc : s.pc i with
  | loop c l | lock c l =>
    cases l with
    | target k => simp [hpc, Pc.waiting] at hi
    | drain ret => exact ⟨i, c, ret, by simp [hpc]⟩
  | poll c l | handle c l => simp [hpc, Pc.polling] at hpoll
  | post c r => simp [hpc, Pc.raised] at hpost
  | _ => simp [hpc, Pc.waiting] at hi

/-- The counter of a queue with a free lock and nothing in flight. -/
theorem pending_eq_cq (h : (system ι).Run tr s) (hok : failedPosts tr = 0) (hlock : s.cqLock = none)
    (hraised : ∑ i, (s.pc i).raised = 0) (hin : s.inflight = []) : s.pending = s.cq.length := by
  have hhandling : ∑ i, (s.pc i).handling = 0 := by
    refine Finset.sum_eq_zero fun i _ => ?_
    have hpoll : (s.pc i).polling ≠ true := fun hp => by
      have hheld := (run_locked h i).mp hp
      rw [hlock] at hheld
      cases hheld
    cases hpc : s.pc i <;> first | rfl | exact absurd (by rw [hpc]; rfl) hpoll
  have hcount := run_counted h
  unfold Counted State.unhandled at hcount
  rw [hin, List.length_nil] at hcount
  omega

/-- Without a failed post, all that was posted can be handled. -/
theorem proceeds_calm (h : (system ι).Run tr s) (hok : failedPosts tr = 0) :
    ∃ s', Proceeds s s' ∧ Keeps s s' ∧ Calm s' := by
  obtain ⟨s₁, hs₁, hkeep₁, hlock₁⟩ := proceeds_unlocked (run_locked h)
  obtain ⟨s₂, hs₂, hkeep₂, hlock₂, hraised⟩ := proceeds_posted hlock₁
  obtain ⟨s₃, hs₃, hpc, hlock, hin⟩ := proceeds_completed s₂
  rw [hlock₂] at hlock
  rw [← hpc] at hraised
  have hreach := (hs₁.trans hs₂).trans hs₃
  have hkeep : Keeps s s₃ := (hkeep₁.trans hkeep₂).trans fun i => .inl (by rw [hpc])
  obtain ⟨tr₃, h₃, hok₃⟩ := hreach.run h hok
  have hpending := pending_eq_cq h₃ hok₃ hlock hraised hin
  cases hcq : s₃.cq with
  | nil => exact ⟨s₃, hreach, hkeep, by simpa [hcq] using hpending, hlock, hin, hcq⟩
  | cons w rest =>
    have hpos : 0 < s₃.pending := by
      rw [hpending, hcq, List.length_cons]
      omega
    have hzero : s₃.pending - s₃.cq.length = 0 := by omega
    obtain ⟨i, c, ret, hi⟩ := exists_draining h₃ hok₃ hlock hraised hpos
    have hself := put_self s₃ i
    rw [hlock] at hself
    have hdrain : Reaches (s₃.put i (.loop c (.drain ret)) s₃.pending none s₃.cq)
        (s₃.put i (.loop c (.drain ret)) 0 none []) := by
      rw [← hzero]
      exact reaches_drained _ _ (by omega)
    have hcalm : Calm (s₃.put i (.loop c (.drain ret)) 0 none []) := ⟨rfl, rfl, hin, rfl⟩
    rcases hi with hi | hi
    · rw [← hi, hself, hi] at hdrain
      refine ⟨_, hreach.trans hdrain.proceeds, hkeep.trans (.move (i := i) rfl ?_), hcalm⟩
      rw [hi]
      trivial
    · have hround : Reaches (s₃.put i (.lock c (.drain ret)) s₃.pending none s₃.cq) _ :=
        (reaches_locked.trans reaches_unlocked).trans hdrain
      rw [← hi, hself] at hround
      refine ⟨_, hreach.trans hround.proceeds, hkeep.trans (.move (i := i) rfl ?_), hcalm⟩
      rw [hi]
      trivial

/-- On a calm queue every running call can return. -/
theorem returns_of_live (h : (system ι).Run tr s) (hc : Calm s) (hlive : (s.pc i).Live) :
    Returns s i := by
  have hpoll : (s.pc i).polling ≠ true := fun hp => by
    have hheld := (run_locked h i).mp hp
    rw [hc.cqLock] at hheld
    cases hheld
  have hraised : (s.pc i).raised = 0 := by
    have hcount := run_counted h
    unfold Counted at hcount
    rw [hc.pending] at hcount
    have hsum : ∑ i, (s.pc i).raised = 0 := by omega
    exact Finset.sum_eq_zero_iff.mp hsum i (Finset.mem_univ i)
  cases hpc : s.pc i with
  | idle | crashed => simp [hpc, Pc.Live] at hlive
  | pressure c => exact returns_pressure hc hpc
  | loop c l => exact returns_loop hc hpc
  | lock c l => exact returns_lock hc hpc
  | poll c l | handle c l => simp [hpc, Pc.polling] at hpoll
  | alloc c => exact returns_alloc hc hpc
  | map c id => exact returns_map hc hpc
  | raise c r => exact returns_raise hc hpc (by simpa [hpc, Pc.Live] using hlive)
  | post c r => simp [hpc, Pc.raised] at hraised

/-- On a calm queue the running calls can return one after the other. -/
theorem proceeds_returned (h : (system ι).Run tr s) (hok : failedPosts tr = 0) (hc : Calm s)
    (T : Finset ι) : ∃ s', Proceeds s s' ∧ Calm s' ∧
      (∀ i ∈ T, (s.pc i).Live → s'.pc i = .idle) ∧ ∀ i ∉ T, s'.pc i = s.pc i := by
  induction T using Finset.induction_on with
  | empty => exact ⟨s, .refl s, hc, by simp, fun _ _ => rfl⟩
  | @insert j T hj ih =>
    obtain ⟨s₁, hs₁, hc₁, hin, hout⟩ := ih
    obtain ⟨tr₁, h₁, hok₁⟩ := hs₁.run h hok
    by_cases hlive : (s.pc j).Live
    · obtain ⟨s₂, hs₂, hc₂, hpc⟩ := returns_of_live h₁ hc₁ (i := j) (by rwa [hout j hj])
      refine ⟨s₂, hs₁.trans hs₂, hc₂, fun i hi hlive' => ?_, fun i hi => ?_⟩
      · by_cases hij : i = j
        · subst hij
          rw [hpc, Function.update_self]
        · rw [hpc, Function.update_of_ne hij]
          exact hin i (Finset.mem_of_mem_insert_of_ne hi hij) hlive'
      · rw [Finset.mem_insert, not_or] at hi
        rw [hpc, Function.update_of_ne hi.1]
        exact hout i hi.2
    · refine ⟨s₁, hs₁, hc₁, fun i hi hlive' => ?_, fun i hi => ?_⟩
      · have hij : i ≠ j := by
          rintro rfl
          exact hlive hlive'
        exact hin i (Finset.mem_of_mem_insert_of_ne hi hij) hlive'
      · rw [Finset.mem_insert, not_or] at hi
        exact hout i hi.2

theorem afterAdd_stage_ne_idle (c : Call) (ret : ℤ) : (afterAdd c ret).stage ≠ .idle :=
  afterAdd_of (P := fun pc => pc.stage ≠ .idle) Stage.noConfusion fun _ _ => Stage.noConfusion

/-- After a failed post no call returns. -/
theorem running_of_failed (h : (system ι).Run tr s) (hfailed : failedPosts tr ≠ 0)
    (hs : Steps Step s ev s') (hrun : s.pc i ≠ .idle) : s'.pc i ≠ .idle := by
  induction hs with
  | refl => exact hrun
  | @tail s₁ s₂ ev₁ ev₂ hs₁ hs₂ ih =>
    have h₁ := h.steps hs₁
    have hne : s₁.stage i ≠ .idle := fun hidle => ih (Pc.stage_eq_idle.mp hidle)
    intro hidle
    have hidle' : s₂.stage i = .idle := Pc.stage_eq_idle.mpr hidle
    have hother : ∀ {j : ι} {x : Stage}, s₂.stage = Function.update s₁.stage j x →
        x ≠ .idle → False := by
      intro j x hstage hx
      by_cases hij : i = j
      · subst hij
        rw [hstage, Function.update_self] at hidle'
        exact hx hidle'
      · rw [hstage, Function.update_of_ne hij] at hidle'
        exact hne hidle'
    cases hs₂.turn (run_ownRequests h₁) with
    | inside hstage | complete _ hstage =>
      rw [hstage] at hidle'
      exact hne hidle'
    | call j c _ hstage | stop j _ hstage | post j _ hstage => exact hother hstage (by simp)
    | fail j _ _ hstage => exact hother hstage (afterAdd_stage_ne_idle _ _)
    | leave j _ _ _ hzero =>
      have hnone := (drained_of_leave h₁ hzero).2.2
      have hsplit : failedPosts (tr ++ ev₁) = failedPosts tr + failedPosts ev₁ :=
        List.countP_append
      omega

/-- Without a failed post, all running calls on the queue can return. -/
theorem proceeds_idle (h : (system ι).Run tr s) (hok : failedPosts tr = 0) :
    ∃ s', Proceeds s s' ∧ ∀ i, (s.pc i).Live → s'.pc i = .idle := by
  obtain ⟨s₁, hs₁, hkeep, hcalm⟩ := proceeds_calm h hok
  obtain ⟨tr₁, h₁, hok₁⟩ := hs₁.run h hok
  obtain ⟨s₂, hs₂, -, hall, -⟩ := proceeds_returned h₁ hok₁ hcalm Finset.univ
  exact ⟨s₂, hs₁.trans hs₂, fun i hi => hall i (Finset.mem_univ i) (hkeep.live hi)⟩

/-- As long as no post has failed, and only then, all running calls on the queue can
still return, whatever has happened so far. -/
theorem can_return_iff (h : (system ι).Run tr s) (hlive : ∃ i, (s.pc i).Live) :
    (∃ ev s', Steps Step s ev s' ∧ ∀ i, (s.pc i).Live → s'.pc i = .idle) ↔
      ∀ i r ret, Event.postFailed i r ret ∉ tr := by
  rw [← failedPosts_eq_zero]
  constructor
  · rintro ⟨ev, s', hs, hall⟩
    by_contra hfailed
    obtain ⟨i, hi⟩ := hlive
    refine running_of_failed h hfailed hs (fun hidle => ?_) (hall i hi)
    rw [hidle] at hi
    exact hi
  · intro hok
    obtain ⟨s', ⟨ev, -, hsteps⟩, hall⟩ := proceeds_idle h hok
    exact ⟨ev, s', hsteps.mono fun _ _ _ ho => ho.step, hall⟩

theorem can_return_posting : ∃ ev s', Steps Step posting ev s' ∧ s'.pc () = .idle := by
  obtain ⟨ev, s', hs, hall⟩ := (can_return_iff posting_run ⟨(), trivial⟩).mpr (by simp)
  exact ⟨ev, s', hs, hall () trivial⟩

end Multiswap.Queue
