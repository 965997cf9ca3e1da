import Multiswap.Concurrent.RoundTrip
import Multiswap.Queue.Progress
import Multiswap.Transport.Placement

/-!
# The driver can always come to rest

As long as no post has failed, all running stores and loads can return, from every state
that the scheduler, the queues and the hardware can reach together. A failed post keeps the
calls on its queue, and only those, for ever.
-/

namespace Multiswap.Transport

open Concurrent (Op)
open Queue (Internal Onward)
open Rdma (Host numServer sswapRdmaGetQueue)
open Transition.System (Steps)

variable {α : Type} {n : ℕ} {cfg : Config} {host : Host} {memory : ℕ → ℕ → α}
  {tr ev : List (Event α n)} {s s' s₁ s₂ : State α n} {p : Fin n} {q : QueueId}

/-- Every post was accepted. -/
def NoFailedPost (tr : List (Event α n)) : Prop := ∀ q i r ret, .onQueue q (.postFailed i r ret) ∉ tr

theorem NoFailedPost.append {ev : List (Event α n)} (h : NoFailedPost tr) (h' : NoFailedPost ev) :
    NoFailedPost (tr ++ ev) :=
  fun q i r ret hmem => (List.mem_append.mp hmem).elim (h q i r ret) (h' q i r ret)

theorem NoFailedPost.on (h : NoFailedPost tr) (q : QueueId) :
    Queue.failedPosts (tr.filterMap (Event.on? q)) = 0 := by
  rw [Queue.failedPosts_eq_zero]
  intro i r ret hmem
  obtain ⟨e, he, hon⟩ := List.mem_filterMap.mp hmem
  cases e with
  | onQueue q' e' =>
    simp only [Event.on?, Option.ite_none_right_eq_some, Option.some.injEq] at hon
    obtain ⟨rfl, rfl⟩ := hon
    exact h _ i r ret he
  | completed | returned => cases hon

/-! ## One queue inside the driver -/

/-- The queue has gone on to `u`, and nothing else has changed but for the calls of the
queue that have returned, and for the contents that the hardware has moved. -/
structure Lifted (q : QueueId) (s s' : State α n) (u : Queue.State (Fin n)) : Prop where
  queue : s'.queues q = u
  others : ∀ q', q' ≠ q → s'.queues q' = s.queues q'
  sched : s'.driver.sched = s.driver.sched
  off : ∀ p, s.via p ≠ some q → s'.via p = s.via p ∧ s'.driver.op p = s.driver.op p
  on : ∀ p, s.via p = some q → s'.via p = some q ∨ (s'.via p = none ∧ s'.driver.op p = .idle)

theorem Lifted.refl (q : QueueId) (s : State α n) : Lifted q s s (s.queues q) where
  queue := rfl
  others _ _ := rfl
  sched := rfl
  off _ _ := ⟨rfl, rfl⟩
  on _ h := .inl h

theorem Lifted.trans {u u' : Queue.State (Fin n)} (h : Lifted q s s₁ u) (h' : Lifted q s₁ s₂ u') :
    Lifted q s s₂ u' where
  queue := h'.queue
  others q' hq := (h'.others q' hq).trans (h.others q' hq)
  sched := h'.sched.trans h.sched
  off p hp := by
    obtain ⟨hvia, hop⟩ := h.off p hp
    obtain ⟨hvia', hop'⟩ := h'.off p (hvia ▸ hp)
    exact ⟨hvia'.trans hvia, hop'.trans hop⟩
  on p hp := by
    rcases h.on p hp with hvia | ⟨hvia, hop⟩
    · exact h'.on p hvia
    · obtain ⟨hvia', hop'⟩ := h'.off p (by simp [hvia])
      exact .inr ⟨hvia'.trans hvia, hop'.trans hop⟩

/-- The calls stay where they are. -/
theorem Lifted.still {u : Queue.State (Fin n)} (hqueues : s'.queues = Function.update s.queues q u)
    (hsched : s'.driver.sched = s.driver.sched) (hvia : s'.via = s.via)
    (hop : s'.driver.op = s.driver.op) : Lifted q s s' u where
  queue := by rw [hqueues, Function.update_self]
  others q' hq := by rw [hqueues, Function.update_of_ne hq]
  sched := hsched
  off p _ := ⟨by rw [hvia], by rw [hop]⟩
  on p hp := .inl (by rw [hvia, hp])

/-- A step of the queue is a step of the driver. -/
theorem lifted_step (h : Inv tr s) {u : Queue.State (Fin n)} {evq : List (Queue.Event (Fin n))}
    (ho : Onward (s.queues q) evq u) (hev : ∀ e ∈ evq, ¬ e.Failure) :
    ∃ ev s', Step cfg host s ev s' ∧ NoFailedPost ev ∧ Lifted q s s' u := by
  have hinternal : (∀ i r, .posted i r ∉ evq) → (∀ i c ret, .returned i c ret ∉ evq) →
      u.cq.length ≤ (s.queues q).cq.length →
        ∃ ev s', Step cfg host s ev s' ∧ NoFailedPost ev ∧ Lifted q s s' u := by
    intro hposts hreturns hcq
    refine ⟨_, _, .internal q ⟨ho.step, hposts, hreturns, ho.idle, hcq⟩, ?_, .still rfl rfl rfl rfl⟩
    intro q' i r ret hmem
    obtain ⟨e, he, heq⟩ := List.mem_map.mp hmem
    cases heq
    exact hev _ he trivial
  have hstep := ho.step
  cases hstep with
  | call i c hpc =>
    have hidle := ho.idle i hpc
    simp [Queue.State.goto] at hidle
  | @post i c r hpc =>
    obtain ⟨-, -, -, hvia, -⟩ := h.posts ho.step
    obtain ⟨x, hx, -⟩ := h.on q i hvia
    exact ⟨_, _, .post q i hx ho.step, by simp [NoFailedPost], .still rfl rfl rfl rfl⟩
  | @drainLeave i c ret hpc hleave =>
    obtain ⟨-, -, -, -, hvia⟩ := h.leaves ho.step
    refine ⟨_, _, .leave q i ho.step, by simp [NoFailedPost], ?_⟩
    constructor
    · exact Function.update_self ..
    · intro q' hq
      exact Function.update_of_ne hq ..
    · rfl
    · intro p hp
      have hpi : p ≠ i := by
        rintro rfl
        exact hp hvia
      refine ⟨Function.update_of_ne hpi .., ?_⟩
      exact Function.update_of_ne (fun heq => hpi (Fin.ext heq)) ..
    · intro p hp
      by_cases hpi : p = i
      · subst hpi
        exact .inr ⟨Function.update_self .., Function.update_self ..⟩
      · exact .inl ((Function.update_of_ne hpi ..).trans hp)
  | @complete before after r status hin =>
    obtain ⟨hop, hsched, hvia, hqueues, -⟩ := moveData_eq s q r status
    refine ⟨_, _, .complete q status hin, by simp [NoFailedPost], .still ?_ hsched hvia hop⟩
    rw [State.setQueue, hqueues]
  | _ => exact hinternal (by simp) (by simp) (by simp [Queue.State.goto, *])

theorem lifted_steps (h : (system cfg host n memory).Run tr s) {u : Queue.State (Fin n)}
    {evq : List (Queue.Event (Fin n))} (ho : Steps Onward (s.queues q) evq u)
    (hev : ∀ e ∈ evq, ¬ e.Failure) :
    ∃ ev s', Steps (Step cfg host) s ev s' ∧ NoFailedPost ev ∧ Lifted q s s' u := by
  generalize hu : s.queues q = u₀ at ho
  induction ho with
  | refl => exact ⟨[], s, .refl s, by simp [NoFailedPost], hu ▸ .refl q s⟩
  | @tail u₁ u₂ ev₁ ev₂ hs₁ hs₂ ih =>
    obtain ⟨ev, s₁, hsteps, hok, hlift⟩ := ih fun e he => hev e (List.mem_append_left _ he)
    have hnext : Onward (s₁.queues q) ev₂ u₂ := hlift.queue ▸ hs₂
    obtain ⟨ev', s', hstep, hok', hlift'⟩ :
        ∃ ev' s', Step cfg host s₁ ev' s' ∧ NoFailedPost ev' ∧ Lifted q s₁ s' u₂ :=
      lifted_step (run_inv (h.steps hsteps)) hnext fun e he => hev e (List.mem_append_right _ he)
    exact ⟨ev ++ ev', s', hsteps.tail hstep, hok.append hok', hlift.trans hlift'⟩

/-! ## Coming to rest -/

/-- The call is not stopped: the kernel has not stopped its caller on a queue, and a load
without a mapping does not run into `VM_BUG_ON`. -/
def Able (cfg : Config) (s : State α n) (p : Fin n) : Prop :=
  match s.via p with
  | some q => ((s.queues q).pc p).Live
  | none => s.driver.op p = .loadLookup → s.driver.sched.mappingOf p ≠ none ∨ cfg.debugVm = false

/-- Calls that have returned are not called again, and no call is stopped. -/
structure Spares (cfg : Config) (s s' : State α n) : Prop where
  idle : ∀ p : Fin n, s.driver.op p = .idle → s'.driver.op p = .idle
  able : ∀ p : Fin n, Able cfg s p → Able cfg s' p

/-- The driver can go on from `s` to `s'` with no failed post. -/
def Advances (cfg : Config) (host : Host) (s s' : State α n) : Prop :=
  ∃ ev, Steps (Step cfg host) s ev s' ∧ NoFailedPost ev ∧ Spares cfg s s'

theorem Advances.refl (s : State α n) : Advances cfg host s s :=
  ⟨[], .refl s, by simp [NoFailedPost], fun _ h => h, fun _ h => h⟩

theorem Advances.trans (h : Advances cfg host s s₁) (h' : Advances cfg host s₁ s₂) :
    Advances cfg host s s₂ := by
  obtain ⟨ev, hs, hok, hspare⟩ := h
  obtain ⟨ev', hs', hok', hspare'⟩ := h'
  exact ⟨ev ++ ev', hs.trans hs', hok.append hok', fun p hp => hspare'.idle p (hspare.idle p hp),
    fun p hp => hspare'.able p (hspare.able p hp)⟩

theorem Advances.run (ha : Advances cfg host s s') (h : (system cfg host n memory).Run tr s)
    (hok : NoFailedPost tr) : ∃ tr', (system cfg host n memory).Run tr' s' ∧ NoFailedPost tr' := by
  obtain ⟨ev, hs, hev, -⟩ := ha
  exact ⟨tr ++ ev, h.steps hs, hok.append hev⟩

theorem able_of_idle (hvia : s.via p = none) (hop : s.driver.op p ≠ .loadLookup) : Able cfg s p := by
  rw [Able, hvia]
  exact fun heq => absurd heq hop

/-- All calls on one queue return. -/
theorem advances_queue (h : (system cfg host n memory).Run tr s) (hok : NoFailedPost tr) (q : QueueId) :
    ∃ s', Advances cfg host s s' ∧ ∀ p, s.via p = some q → Able cfg s p → s'.driver.op p = .idle := by
  have hi := run_inv h
  obtain ⟨u, ⟨evq, hev, ho⟩, hidle⟩ := Queue.proceeds_idle (hi.runs q) (hok.on q)
  obtain ⟨ev, s', hs, hevok, hlift⟩ := lifted_steps h ho hev
  have hi' := run_inv (h.steps hs)
  have hreturned : ∀ p, s.via p = some q → Able cfg s p →
      s'.via p = none ∧ s'.driver.op p = .idle := by
    intro p hvia hable
    rw [Able, hvia] at hable
    refine (hlift.on p hvia).resolve_left fun hvia' => ?_
    -- a call is on the queue as long as its caller is
    obtain ⟨x, -, -, hserves⟩ := hi'.on q p hvia'
    have hstage : u.stage p = .idle := Queue.Pc.stage_eq_idle.mpr (hidle p hable)
    rw [hlift.queue, hstage] at hserves
    exact hserves
  refine ⟨s', ⟨ev, hs, hevok, fun p hop => ?_, fun p hable => ?_⟩,
    fun p hvia hable => (hreturned p hvia hable).2⟩
  · have hvia := hi.via_none (p := p) (by rw [hop]; rfl)
    rw [(hlift.off p (by simp [hvia])).2, hop]
  · by_cases hvia : s.via p = some q
    · obtain ⟨hvia', hop⟩ := hreturned p hvia hable
      exact able_of_idle hvia' (by simp [hop])
    · obtain ⟨hvia', hop⟩ := hlift.off p hvia
      rw [Able, hvia'] at *
      split
      · next q' hq' =>
        rw [hq'] at hable hvia
        rw [hlift.others q' (by rintro rfl; exact hvia rfl)]
        exact hable
      · next hnone =>
        rw [hnone] at hable
        rw [hop, hlift.sched]
        exact hable

section Scheduling

variable {t t' : Concurrent.State α} {evt : List (Concurrent.Event α)} {p : ℕ}

theorem move_mappingOf (hm : Concurrent.Move cfg t p evt t') {p' : ℕ} (hp : p' ≠ p) :
    t'.sched.mappingOf p' = t.sched.mappingOf p' := by
  cases hm with
  | record hop => rw [Scheduler.xaStore_mappingOf, if_neg hp]
  | _ => rfl

theorem move_op (hm : Concurrent.Move cfg t p evt t') :
    t'.op p ≠ .loadLookup ∧ ∀ p', p' ≠ p → t'.op p' = t.op p' := by
  cases hm
  all_goals
    refine ⟨?_, fun p' hp => Function.update_of_ne hp ..⟩
    dsimp only
    rw [Function.update_self]
    exact nofun

/-- A running call can take its next step, unless it is a load that `VM_BUG_ON` stops. -/
theorem stepOp_able (hf : Concurrent.Fits cfg n) (hi : Concurrent.Inv cfg n t) (hne : t.op p ≠ .idle)
    (hload : t.op p = .loadLookup → t.sched.mappingOf p ≠ none ∨ cfg.debugVm = false) :
    ∃ r, Concurrent.stepOp cfg p t = .ok r := by
  by_cases hnone : t.op p = .loadLookup ∧ t.sched.mappingOf p = none
  · obtain ⟨hop, hm⟩ := hnone
    have hdebug : cfg.debugVm = false := (hload hop).resolve_left (not_not.mpr hm)
    have hread : sswapSchedulerRead cfg p t.sched = .ok (0, 0) := by
      rw [sswapSchedulerRead, sswapGetMapping_none (hf.inRange p (hi.lt_of_running hne)) hm]
      simp [hdebug]
    exact ⟨(.loadRead 0 0, t.sched, t.remote, []), by simp [Concurrent.stepOp, hop, hread, bind,
      Except.bind, pure, Except.pure]⟩
  · exact hi.advance_ok hf hne fun hop hm => hnone ⟨hop, hm⟩

end Scheduling

/-- A call that makes no transfer yet comes one step nearer to its return. -/
theorem advances_scheduled (hf : Concurrent.Fits cfg n) (h : (system cfg host n memory).Run tr s)
    (hable : Able cfg s p) (hne : s.driver.op p ≠ .idle) (hx : transfer? (s.driver.op p) = none) :
    ∃ s', Advances cfg host s s' ∧
      Concurrent.rank cfg p (s'.driver.op p) < Concurrent.rank cfg p (s.driver.op p) := by
  have hinv := (driver_placed hf h).inv
  have hvia := (run_inv h).via_none hx
  rw [Able, hvia] at hable
  obtain ⟨⟨op, sched, remote, evt⟩, hstep⟩ := stepOp_able hf hinv hne hable
  have hm := hinv.advance_move hf hne hstep
  obtain ⟨hlookup, hother⟩ := move_op hm
  refine ⟨_, ⟨_, .single (.schedule p hne hx hstep), ?_, fun p' hidle => ?_, fun p' hable' => ?_⟩,
    hm.rank_lt⟩
  · simp [NoFailedPost]
  · have hpp : (p' : ℕ) ≠ p := fun heq => hne (heq ▸ hidle)
    exact (hother p' hpp).trans hidle
  · by_cases hpp : p' = p
    · subst hpp
      exact able_of_idle hvia hlookup
    · rw [Able] at hable' ⊢
      rw [move_mappingOf hm fun heq => hpp (Fin.ext heq)]
      rw [hother p' fun heq => hpp (Fin.ext heq)]
      exact hable'

/-- A call picks the queue of processor 0. -/
theorem advances_started (hf : Concurrent.Fits cfg n) (hcpu : 0 < host.numcpus)
    (h : (system cfg host n memory).Run tr s) {x : Transfer} (hx : transfer? (s.driver.op p) = some x)
    (hvia : s.via p = none) : ∃ q s', Advances cfg host s s' ∧ s'.via p = some q := by
  have hserver := ((driver_placed hf h).inside hf hx).server
  refine ⟨⟨x.dev, sswapRdmaGetQueue host 0 (queueType x.opcode)⟩, _,
    ⟨_, .single (.start p 0 hx hvia hserver hcpu rfl), by simp [NoFailedPost], fun p' hidle => hidle,
      fun p' hable => ?_⟩, Function.update_self ..⟩
  by_cases hpp : p' = p
  · subst hpp
    simp [Able, State.setQueue, Queue.State.goto, Queue.Pc.Live]
  · rw [Able] at hable ⊢
    dsimp only
    rw [Function.update_of_ne hpp]
    split
    · next q hq =>
      rw [hq] at hable
      have hpc : (((s.setQueue ⟨x.dev, sswapRdmaGetQueue host 0 (queueType x.opcode)⟩
          ((s.queues ⟨x.dev, sswapRdmaGetQueue host 0 (queueType x.opcode)⟩).goto p
            (.pressure ⟨x.opcode, p⟩))).queues q).pc p') = (s.queues q).pc p' := by
        by_cases hqq : q = ⟨x.dev, sswapRdmaGetQueue host 0 (queueType x.opcode)⟩
        · subst hqq
          simp [State.setQueue, Queue.State.goto, hpp]
        · simp [State.setQueue, hqq]
      rw [hpc]
      exact hable
    · next hnone =>
      rw [hnone] at hable
      exact hable

/-- A call that is not stopped can return. -/
theorem advances_call (hf : Concurrent.Fits cfg n) (hcpu : 0 < host.numcpus)
    (h : (system cfg host n memory).Run tr s) (hok : NoFailedPost tr) (hable : Able cfg s p) :
    ∃ s', Advances cfg host s s' ∧ s'.driver.op p = .idle := by
  induction hk : Concurrent.rank cfg p (s.driver.op p) using Nat.strong_induction_on generalizing tr s with
  | _ k ih =>
    by_cases hne : s.driver.op p = .idle
    · exact ⟨s, .refl s, hne⟩
    · cases hx : transfer? (s.driver.op p) with
      | none =>
        obtain ⟨s₁, ha, hlt⟩ : ∃ s₁, Advances cfg host s s₁ ∧
            Concurrent.rank cfg p (s₁.driver.op p) < Concurrent.rank cfg p (s.driver.op p) :=
          advances_scheduled hf h hable hne hx
        obtain ⟨tr₁, h₁, hok₁⟩ := ha.run h hok
        obtain ⟨s', ha', hidle⟩ := ih _ (hk ▸ hlt) h₁ hok₁ (ha.choose_spec.2.2.able p hable) rfl
        exact ⟨s', ha.trans ha', hidle⟩
      | some x =>
        obtain ⟨q, s₁, ha, hvia⟩ : ∃ q s₁, Advances cfg host s s₁ ∧ s₁.via p = some q := by
          cases hvia : s.via p with
          | none => exact advances_started hf hcpu h hx hvia
          | some q => exact ⟨q, s, .refl s, hvia⟩
        obtain ⟨tr₁, h₁, hok₁⟩ := ha.run h hok
        obtain ⟨s', ha', hall⟩ := advances_queue h₁ hok₁ q
        exact ⟨s', ha.trans ha', hall p hvia (ha.choose_spec.2.2.able p hable)⟩

/-- The calls that are not stopped can return one after the other. -/
theorem advances_calls (hf : Concurrent.Fits cfg n) (hcpu : 0 < host.numcpus)
    (h : (system cfg host n memory).Run tr s) (hok : NoFailedPost tr) (T : Finset (Fin n)) :
    ∃ s', Advances cfg host s s' ∧ ∀ p ∈ T, Able cfg s p → s'.driver.op p = .idle := by
  induction T using Finset.induction_on with
  | empty => exact ⟨s, .refl s, by simp⟩
  | @insert p T _ ih =>
    obtain ⟨s₁, ha₁, hall⟩ := ih
    obtain ⟨tr₁, h₁, hok₁⟩ := ha₁.run h hok
    obtain ⟨-, -, -, hspare₁⟩ := id ha₁
    by_cases hable : Able cfg s p
    · obtain ⟨s₂, ha₂, hidle⟩ := advances_call hf hcpu h₁ hok₁ (hspare₁.able p hable)
      obtain ⟨-, -, -, hspare₂⟩ := id ha₂
      refine ⟨s₂, ha₁.trans ha₂, fun p' hp' hable' => ?_⟩
      rcases Finset.mem_insert.mp hp' with rfl | hp'
      · exact hidle
      · exact hspare₂.idle p' (hall p' hp' hable')
    · refine ⟨s₁, ha₁, fun p' hp' hable' => ?_⟩
      rcases Finset.mem_insert.mp hp' with rfl | hp'
      · exact absurd hable' hable
      · exact hall p' hp' hable'

/-- No call leaves a queue on which a post has failed. -/
theorem stays_of_failed (hi : Inv tr s) {i : Fin n} {r : Queue.Req} {ret : ℤ}
    (hfailed : .onQueue q (.postFailed i r ret) ∈ tr) (hvia : s.via p = some q)
    (hs : Step cfg host s ev s') : s'.via p = some q := by
  cases hs with
  | callStore | callLoad | schedule | internal | post => exact hvia
  | @start p' x q' cpuid hx hnone =>
    have hpp : p ≠ p' := by
      rintro rfl
      rw [hnone] at hvia
      cases hvia
    exact (Function.update_of_ne hpp ..).trans hvia
  | complete q' status hin =>
    obtain ⟨-, -, hv, -⟩ := moveData_eq s q' _ status
    exact (congrFun hv p).trans hvia
  | @leave q' p' c ret' t hq =>
    obtain ⟨-, -, -, hzero, hvia'⟩ := hi.leaves hq
    have hpp : p ≠ p' := by
      rintro rfl
      obtain rfl : q = q' := Option.some.inj (hvia.symm.trans hvia')
      have hnone := (Queue.drained_of_leave (hi.runs q) hzero).2.2
      rw [Queue.failedPosts_eq_zero] at hnone
      exact hnone i r ret (List.mem_filterMap.mpr ⟨_, hfailed, by simp [Event.on?]⟩)
    exact (Function.update_of_ne hpp ..).trans hvia

/-- As long as no post has failed, all calls that the kernel has not stopped can return,
whatever else has failed. After a failed post no call on its queue ever returns. -/
theorem comes_to_rest (debugVm : Bool) (hn : n ≤ remoteBufSize >>> pageShift)
    (hcpu : 0 < host.numcpus) (h : (system (initScheduler debugVm) host n memory).Run tr s) :
    (NoFailedPost tr → ∃ ev s', Steps (Step (initScheduler debugVm) host) s ev s' ∧
      NoFailedPost ev ∧ ∀ p, Able (initScheduler debugVm) s p → s'.driver.op p = .idle) ∧
    ∀ q i r ret, .onQueue q (.postFailed i r ret) ∈ tr →
      ∀ ev s', Steps (Step (initScheduler debugVm) host) s ev s' →
        ∀ p, s.via p = some q → s'.driver.op p ≠ .idle := by
  have hf := Concurrent.fits_initScheduler debugVm hn
  refine ⟨fun hok => ?_, fun q i r ret hfailed ev s' hs p hvia => ?_⟩
  · obtain ⟨s', ⟨ev, hs, hev, -⟩, hall⟩ := advances_calls hf hcpu h hok Finset.univ
    exact ⟨ev, s', hs, hev, fun p => hall p (Finset.mem_univ p)⟩
  · have hstays : s'.via p = some q := by
      induction hs with
      | refl => exact hvia
      | tail hs₁ hs₂ ih =>
        exact stays_of_failed (run_inv (h.steps hs₁)) (List.mem_append_left _ hfailed) ih hs₂
    obtain ⟨x, hx, -⟩ := (run_inv (h.steps hs)).on q p hstays
    intro hidle
    simp [hidle, transfer?] at hx

/-- Stores of pageids 1 and 3 have just been called. -/
def calledTwice : State ℕ 4 where
  driver := ⟨Scheduler.init, fun _ _ => 0, Function.update
    (Function.update (fun _ => .idle) 1 (.storeLoad 7 false .clear)) 3 (.storeLoad 9 false .clear)⟩
  pages := Function.update (Function.update (fun _ => 0) 1 7) 3 9
  via _ := none
  queues _ := .initial
  roffset _ _ := 0

theorem calledTwice_run :
    (system (initScheduler false) ⟨6, false⟩ 4 fun _ _ => (0 : ℕ)).Run [] calledTwice := by
  have hinit : (system (initScheduler false) ⟨6, false⟩ 4 fun _ _ => (0 : ℕ)).init
      ⟨⟨Scheduler.init, fun _ _ => 0, fun _ => .idle⟩, fun _ => 0, fun _ => none,
        fun _ => .initial, fun _ _ => 0⟩ := ⟨fun _ => 0, rfl⟩
  exact .step (.step (.start hinit) (.callStore 1 7 rfl)) (.callStore 3 9 rfl)

theorem comes_to_rest_twice : ∃ ev s', Steps (Step (initScheduler false) ⟨6, false⟩) calledTwice ev s' ∧
    s'.driver.op 1 = .idle ∧ s'.driver.op 3 = .idle := by
  obtain ⟨ev, s', hs, -, hall⟩ := (comes_to_rest false (by decide) (by decide) calledTwice_run).1
    (by simp [NoFailedPost])
  exact ⟨ev, s', hs, hall 1 (able_of_idle rfl (by simp [calledTwice])),
    hall 3 (able_of_idle rfl (by simp [calledTwice]))⟩

end Multiswap.Transport
