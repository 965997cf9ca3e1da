import Multiswap.Handshake.Reports

/-!
# What a handshake leaves behind

The handler frees a completion queue without destroying its queue pair, and the
error exit of `sswap_rdma_init_queue` destroys neither. So a failed handshake is
clean only if it created no queue pair, and what a successful one has depends on
the last event that touched the completion queue.
-/

namespace Multiswap.Handshake

open Ledger (settle Balanced)
open Machine (after Each Since)

/-- An object has been created and not destroyed. Every name is used once. -/
def Queue.Live (q : Queue) (r : Resource) : Prop := .acquire r ∈ q.log ∧ .release r ∉ q.log

/-- `queue->cq` is live. -/
def Queue.LiveCq (q : Queue) : Prop := ∃ n, q.cq = .cq n ∧ q.Live (.cq n)

/-- `cm_id`, completion queue and queue pair are all live. -/
structure AllLive (q : Queue) : Prop where
  cmId : q.Live .cmId
  cq : q.LiveCq
  qp : ∃ n, q.qp = some n ∧ q.Live (.qp n)

/-- Every completion queue is destroyed after its queue pair, if that was created. -/
def QpFirst (log : List (Ledger.Entry Resource)) : Prop :=
  ∀ n before rest, log = before ++ .release (.cq n) :: rest → .acquire (.qp n) ∈ log →
    .release (.qp n) ∈ before

/-- All that was created has been destroyed, and once, and a queue pair before its
completion queue. -/
structure LeavesNothing (q : Queue) : Prop where
  balanced : Balanced q.log
  qpFirst : QpFirst q.log

/-- What the pointers of a queue and its log have to do with each other. -/
structure LogInv (q : Queue) : Prop where
  -- The next name is unused.
  fresh : ∀ n, q.next ≤ n → .acquire (.cq n) ∉ q.log ∧ .release (.cq n) ∉ q.log
  named : ∀ n, q.cq = .cq n → n < q.next
  -- Nothing destroys a queue pair.
  keepsQp : ∀ n, .release (.qp n) ∉ q.log
  qp : ∀ n, q.qp = some n → .acquire (.qp n) ∈ q.log
  rdev : q.qp ≠ none → q.rdev = true
  -- A completion queue stays only with a queue pair.
  live : q.LiveCq → q.qp ≠ none

section Event

variable {k : Answers} {ev : CmEvent} {q q' : Queue}

/-- An event during which everything is set up. -/
def Answers.SetsUp (k : Answers) (q : Queue) (ev : CmEvent) : Prop :=
  ev = .addrResolved ∧ k.Device q ∧ k.allocCq = 0 ∧ k.createQp = 0 ∧ k.resolveRoute = 0

/-- An event that does not touch the completion queue. -/
def Answers.KeepsUp (k : Answers) (q : Queue) : CmEvent → Prop
  | .addrResolved => ¬ k.Device q
  | .routeResolved => k.connect = 0
  | _ => True

/-- An event during which a queue pair is created. -/
def Answers.CreatesQp (k : Answers) (q : Queue) (ev : CmEvent) : Prop :=
  ev = .addrResolved ∧ k.Device q ∧ k.allocCq = 0 ∧ k.createQp = 0

theorem Queue.LiveCq.congr (hcq : q'.cq = q.cq) (hlog : q'.log = q.log) :
    q'.LiveCq ↔ q.LiveCq := by
  simp only [Queue.LiveCq, Queue.Live, hcq, hlog]

theorem Queue.not_liveCq {n : ℕ} (hcq : q.cq = .cq n) (hfreed : .release (.cq n) ∈ q.log) :
    ¬ q.LiveCq := by
  rintro ⟨m, hm, -, hlive⟩
  rw [hcq] at hm
  cases hm
  exact hlive hfreed

/-- The names after the next one are unused, too. -/
theorem LogInv.fresh_succ (h : LogInv q) {n : ℕ} (hn : q.next + 1 ≤ n) :
    n ≠ q.next ∧ .acquire (.cq n) ∉ q.log ∧ .release (.cq n) ∉ q.log :=
  ⟨by omega, h.fresh n (by omega)⟩

theorem LogInv.report (h : LogInv q) (e : ℤ) : LogInv (q.report e) :=
  ⟨h.fresh, h.named, h.keepsQp, h.qp, h.rdev, h.live⟩

theorem Handles.logInv (hq : Handles k ev q q') (h : LogInv q) : LogInv q' := by
  cases hq with
  | noDevice | established | error => exact h.report _
  | connecting | ignored => exact h
  | noCq =>
    refine LogInv.report (q := { q with rdev := true, cq := .err }) ?_ _
    refine ⟨h.fresh, fun n hn => ?_, h.keepsQp, h.qp, fun _ => rfl, ?_⟩
    · cases hn
    · rintro ⟨n, hn, -⟩
      cases hn
  | noQp =>
    refine LogInv.report (q := q.withCq.logged _) ?_ _
    refine ⟨fun n hn => ?_, fun n hn => ?_, fun n => ?_, fun n hn => ?_, fun _ => rfl, fun hlive => ?_⟩
    · obtain ⟨hne, hfresh⟩ := h.fresh_succ hn
      simpa [Queue.logged, Queue.withCq, hne] using hfresh
    · cases hn
      exact Nat.lt_succ_self _
    · simpa [Queue.logged, Queue.withCq] using h.keepsQp n
    · simpa [Queue.logged, Queue.withCq] using h.qp n hn
    · exact absurd hlive (Queue.not_liveCq rfl (by simp [Queue.logged]))
  | noRoute | resolved =>
    refine ⟨fun n hn => ?_, fun n hn => ?_, fun n => ?_, fun n hn => ?_, fun _ => rfl,
      fun _ hqp => ?_⟩
    · obtain ⟨hne, hfresh⟩ := h.fresh_succ hn
      simpa [Queue.logged, Queue.withQp, Queue.withCq, hne] using hfresh
    · cases hn
      exact Nat.lt_succ_self _
    · simpa [Queue.logged, Queue.withQp, Queue.withCq] using h.keepsQp n
    · cases hn
      simp [Queue.logged]
    · cases hqp
  | noConnect hqp hdev hcq =>
    refine ⟨fun n hn => ?_, h.named, fun n => ?_, fun n hn => ?_, fun _ => hdev, fun _ => hqp⟩
    · have hne : ∀ m, q.cq = .cq m → n ≠ m := by
        rintro m hm rfl
        exact absurd (h.named n hm) (Nat.not_lt.mpr hn)
      simpa [Queue.logged, hne _ hcq] using h.fresh n hn
    · simpa [Queue.logged] using h.keepsQp n
    · simpa [Queue.logged] using h.qp n hn

/-- The completion queue is live after an event that has set it up, or that left alone
one which was. -/
theorem Handles.liveCq_iff (hq : Handles k ev q q') (h : LogInv q) :
    q'.LiveCq ↔ k.SetsUp q ev ∨ (q.LiveCq ∧ k.KeepsUp q ev) := by
  cases hq with
  | noDevice hdev =>
    have hno : ¬ k.SetsUp q .addrResolved := fun hs => hdev hs.2.1
    simp only [hno, false_or, Answers.KeepsUp, hdev, not_false_eq_true, and_true]
    exact Queue.LiveCq.congr rfl rfl
  | noCq hdev hcq =>
    refine iff_of_false ?_ ?_
    · rintro ⟨n, hn, -⟩
      cases hn
    · rintro (hs | ⟨-, hk⟩)
      · exact hcq hs.2.2.1
      · exact hk hdev
  | noQp hdev hcq hqp =>
    refine iff_of_false ?_ ?_
    · exact Queue.not_liveCq rfl (by simp [Queue.logged, Queue.report])
    · rintro (hs | ⟨-, hk⟩)
      · exact hqp hs.2.2.2.1
      · exact hk hdev
  | noRoute hdev hcq hqp hroute =>
    refine iff_of_false ?_ ?_
    · exact Queue.not_liveCq rfl (by simp [Queue.logged])
    · rintro (hs | ⟨-, hk⟩)
      · exact hroute hs.2.2.2.2
      · exact hk hdev
  | resolved hdev hcq hqp hroute =>
    refine iff_of_true ⟨q.next, rfl, ?_, ?_⟩ (.inl ⟨rfl, hdev, hcq, hqp, hroute⟩)
    · simp [Queue.logged]
    · simpa [Queue.logged, Queue.withQp, Queue.withCq] using (h.fresh q.next le_rfl).2
  | connecting _ _ hconnect =>
    have hno : ¬ k.SetsUp q .routeResolved := fun hs => by cases hs.1
    simp only [hno, false_or, Answers.KeepsUp, hconnect, and_true]
  | noConnect hqp hdev hcq hconnect =>
    refine iff_of_false ?_ ?_
    · exact Queue.not_liveCq hcq (by simp [Queue.logged])
    · rintro (hs | ⟨-, hk⟩)
      · cases hs.1
      · exact hconnect hk
  | established =>
    have hno : ¬ k.SetsUp q .established := fun hs => by cases hs.1
    simp only [hno, false_or, Answers.KeepsUp, and_true]
    exact Queue.LiveCq.congr rfl rfl
  | error hev =>
    simp only [List.mem_cons, List.not_mem_nil, or_false] at hev
    have hno : ¬ k.SetsUp q ev := by
      rintro ⟨rfl, -⟩
      simp at hev
    have hkeep : k.KeepsUp q ev := by obtain rfl | rfl | rfl | rfl := hev <;> trivial
    simp only [hno, false_or, hkeep, and_true]
    exact Queue.LiveCq.congr rfl rfl
  | ignored hev =>
    simp only [List.mem_cons, List.not_mem_nil, or_false] at hev
    have hno : ¬ k.SetsUp q ev := by
      rintro ⟨rfl, -⟩
      simp at hev
    have hkeep : k.KeepsUp q ev := by
      obtain rfl | rfl | rfl | rfl | rfl | rfl := hev <;> trivial
    simp only [hno, false_or, hkeep, and_true]

/-- The handler crashes only where there is no live completion queue. -/
theorem LogInv.not_liveCq (h : LogInv q) (hcrash : k.Crashes q) : ¬ q.LiveCq := by
  rintro ⟨n, hn, hlive⟩
  have hqp := h.live ⟨n, hn, hlive⟩
  obtain hnone | hrdev | ⟨-, hbad⟩ := hcrash
  · exact hqp hnone
  · rw [h.rdev hqp] at hrdev
    cases hrdev
  · exact hbad n hn

/-- The handler only adds to the log, and leaves the `rdma_cm_id` alone. -/
theorem Handles.log (hq : Handles k ev q q') :
    ∃ l, q'.log = q.log ++ l ∧ .acquire .cmId ∉ l ∧ .release .cmId ∉ l := by
  cases hq with
  | noDevice | noCq | connecting | established | error | ignored =>
    exact ⟨[], (List.append_nil _).symm, by simp, by simp⟩
  | noQp | noRoute | resolved | noConnect => exact ⟨_, rfl, by simp, by simp⟩

theorem Handles.live_cmId (hq : Handles k ev q q') : q'.Live .cmId ↔ q.Live .cmId := by
  obtain ⟨l, hl, hacq, hrel⟩ := hq.log
  simp only [Queue.Live, hl, List.mem_append, hacq, hrel, or_false]

/-- As long as no queue pair is created, the handler frees what it creates. -/
theorem Handles.clean (hq : Handles k ev q q') (hqp : q.qp = none) (hno : ¬ k.CreatesQp q ev)
    {H : Multiset Resource} (hs : settle q.log = some H) :
    q'.qp = none ∧ settle q'.log = some H := by
  cases hq with
  | noDevice | noCq | established | error | ignored => exact ⟨hqp, hs⟩
  | noQp =>
    refine ⟨hqp, ?_⟩
    have hfreed := Ledger.settle_release (Ledger.settle_acquire hs (.cq q.next))
    rw [List.append_assoc] at hfreed
    exact hfreed
  | noRoute hdev hcq hnew => exact absurd ⟨rfl, hdev, hcq, hnew⟩ hno
  | resolved hdev hcq hnew => exact absurd ⟨rfl, hdev, hcq, hnew⟩ hno
  | connecting hset => exact absurd hqp hset
  | noConnect hset => exact absurd hqp hset

theorem Handles.creates (hq : Handles k ev q q') (hnew : k.CreatesQp q ev) :
    ∃ n, .acquire (.qp n) ∈ q'.log := by
  obtain ⟨rfl, hdev, hcq, hqp⟩ := hnew
  cases hq with
  | noDevice hno => exact absurd hdev hno
  | noCq _ hno => exact absurd hcq hno
  | noQp _ _ hno => exact absurd hqp hno
  | noRoute | resolved => exact ⟨q.next, by simp [Queue.logged]⟩
  | error hev | ignored hev => simp at hev

end Event

/-! ## Runs -/

/-- A step during which everything is set up. -/
def SetsUp (p : Process) (x : Input) : Prop :=
  ∃ k ev, x = .event k ev ∧ p.phase.Listens ∧ k.SetsUp p.queue ev

/-- A step that does not touch the completion queue. -/
def KeepsUp (p : Process) (x : Input) : Prop :=
  ∀ k ev, x = .event k ev → p.phase.Listens → k.KeepsUp p.queue ev

/-- A step during which a queue pair is created. -/
def CreatesQp (p : Process) (x : Input) : Prop :=
  ∃ k ev, x = .event k ev ∧ p.phase.Listens ∧ k.CreatesQp p.queue ev

/-- What the pointers and the log have to do with the phase. -/
structure ObjectsInv (p : Process) : Prop where
  outcome : OutcomeInv p
  log : LogInv p.queue
  start : p.phase = .start → .release .cmId ∉ p.queue.log
  listens : p.phase.Listens → p.queue.Live .cmId
  returned : p.phase = .returned 0 → p.queue.Live .cmId

theorem objectsInv_initial (rdev : Bool) : ObjectsInv (.initial rdev) where
  outcome := outcomeInv_initial rdev
  log := by
    refine ⟨fun _ _ => ⟨nofun, nofun⟩, nofun, fun _ => nofun, nofun, fun hne => absurd rfl hne, ?_⟩
    rintro ⟨n, hn, -⟩
    cases hn
  start _ := nofun
  listens h := absurd h id
  returned h := by cases h

/-- An entry about the `rdma_cm_id` does not matter to the others. -/
theorem LogInv.cmId {q : Queue} (h : LogInv q) {e : Ledger.Entry Resource}
    (he : e = .acquire .cmId ∨ e = .release .cmId) : LogInv (q.logged [e]) := by
  refine ⟨fun n hn => ?_, h.named, fun n => ?_, fun n hn => ?_, h.rdev, ?_⟩
  · obtain rfl | rfl := he <;> simpa [Queue.logged] using h.fresh n hn
  · obtain rfl | rfl := he <;> simpa [Queue.logged] using h.keepsQp n
  · exact List.mem_append_left _ (h.qp n hn)
  · rintro ⟨n, hn, hacq, hrel⟩
    refine h.live ⟨n, hn, ?_, fun hmem => hrel (List.mem_append_left _ hmem)⟩
    obtain rfl | rfl := he <;> simpa [Queue.logged] using hacq

theorem LogInv.begun {q : Queue} (h : LogInv q) : LogInv q.begun :=
  have hl := h.cmId (.inl rfl)
  ⟨hl.fresh, hl.named, hl.keepsQp, hl.qp, hl.rdev, hl.live⟩

theorem begun_live {q : Queue} (h : .release .cmId ∉ q.log) : q.begun.Live .cmId := by
  constructor
  · simp [Queue.begun, Queue.logged]
  · simpa [Queue.begun, Queue.logged] using h

theorem ObjectsInv.step {p : Process} (h : ObjectsInv p) (x : Input) : ObjectsInv (p.step x) := by
  have houtcome := h.outcome.step x
  have hstep := step_steps p x
  generalize p.step x = p' at houtcome hstep ⊢
  cases hstep with
  | noId hp =>
    refine ⟨houtcome, h.log, Phase.noConfusion, fun hl => absurd hl id, fun hr => ?_⟩
    simp [Driver.enodev] at hr
  | noAddr hp | waits hp =>
    exact ⟨houtcome, h.log.begun, Phase.noConfusion, fun _ => begun_live (h.start hp), Phase.noConfusion⟩
  | handles hp hq =>
    refine ⟨houtcome, hq.logInv h.log, fun hs => ?_, fun _ => hq.live_cmId.mpr (h.listens hp),
      fun hr => ?_⟩
    · rw [hs] at hp
      exact absurd hp id
    · rw [hr] at hp
      exact absurd hp id
  | crashes =>
    exact ⟨houtcome, h.log, Phase.noConfusion, fun hl => absurd hl id, Phase.noConfusion⟩
  | fails hp =>
    exact ⟨houtcome, h.log, Phase.noConfusion, fun _ => h.listens (hp ▸ trivial), Phase.noConfusion⟩
  | succeeds hp =>
    exact ⟨houtcome, h.log, Phase.noConfusion, fun hl => absurd hl id, fun _ => h.listens (hp ▸ trivial)⟩
  | destroys hp =>
    refine ⟨houtcome, h.log.cmId (.inr rfl), Phase.noConfusion, fun hl => absurd hl id, fun hr => ?_⟩
    cases hr
    exact absurd rfl (h.outcome.destroying 0 hp)
  | idle => exact h

/-- The completion queue is live after a step that has set it up, or that left alone
one which was. -/
theorem liveCq_step_iff {p : Process} (h : ObjectsInv p) (x : Input) :
    (p.step x).queue.LiveCq ↔ SetsUp p x ∨ (p.queue.LiveCq ∧ KeepsUp p x) := by
  have hstep := step_steps p x
  generalize p.step x = p' at hstep ⊢
  -- A step without an event touches the log of the `rdma_cm_id` only.
  have hquiet : (∀ k ev, x = .event k ev → ¬ p.phase.Listens) →
      (p'.queue.LiveCq ↔ p.queue.LiveCq) →
      (p'.queue.LiveCq ↔ SetsUp p x ∨ (p.queue.LiveCq ∧ KeepsUp p x)) := by
    intro hx hsame
    have hno : ¬ SetsUp p x := by
      rintro ⟨k, ev, heq, hp, -⟩
      exact hx k ev heq hp
    have hkeep : KeepsUp p x := fun k ev heq hp => absurd hp (hx k ev heq)
    rw [hsame]
    simp only [hno, hkeep, false_or, and_true]
  have hcmId : ∀ (q : Queue) e, (e = .acquire .cmId ∨ e = .release .cmId) →
      ((q.logged [e]).LiveCq ↔ q.LiveCq) := by
    intro q e he
    obtain rfl | rfl := he <;> simp [Queue.LiveCq, Queue.Live, Queue.logged]
  cases hstep with
  | noId | fails | succeeds => exact hquiet (fun _ _ => Input.noConfusion) Iff.rfl
  | noAddr | waits => exact hquiet (fun _ _ => Input.noConfusion) (hcmId p.queue _ (.inl rfl))
  | @handles k ev q' hp hq =>
    refine (hq.liveCq_iff h.log).trans (or_congr ?_ (and_congr_right fun _ => ?_))
    · constructor
      · intro hs
        exact ⟨k, ev, rfl, hp, hs⟩
      · rintro ⟨k', ev', heq, -, hs⟩
        cases heq
        exact hs
    · constructor
      · intro hk k' ev' heq _
        cases heq
        exact hk
      · intro hk
        exact hk k ev rfl hp
  | @crashes k hp hcrash =>
    have hdead := h.log.not_liveCq hcrash
    refine iff_of_false hdead ?_
    rintro (⟨k', ev', heq, -, hs⟩ | ⟨hlive, -⟩)
    · cases heq
      cases hs.1
    · exact hdead hlive
  | destroys => exact hquiet (fun _ _ => Input.noConfusion) (hcmId p.queue _ (.inr rfl))
  | idle hx => exact hquiet hx Iff.rfl

/-- A handshake that succeeded has all its objects exactly if everything has been set up
by an event since which none touched the completion queue. -/
theorem allLive_iff_since {rdev : Bool} {tr : List Input}
    (hret : (after Process.step (.initial rdev) tr).phase = .returned 0) :
    AllLive (after Process.step (.initial rdev) tr).queue ↔
      Since Process.step SetsUp KeepsUp (.initial rdev) tr := by
  have hinv := Machine.invariant (I := ObjectsInv) (fun _ x h => h.step x) (objectsInv_initial rdev) tr
  have hnone : ¬ (Process.initial rdev).queue.LiveCq := by
    rintro ⟨n, hn, -⟩
    cases hn
  rw [← Machine.after_iff_since (I := ObjectsInv) (P := fun p => p.queue.LiveCq)
    (fun _ x h => h.step x) (fun _ x h => liveCq_step_iff h x) (objectsInv_initial rdev) hnone]
  constructor
  · exact AllLive.cq
  · intro hlive
    obtain ⟨n, hn⟩ := Option.ne_none_iff_exists'.mp (hinv.log.live hlive)
    exact ⟨hinv.returned hret, hlive, n, hn, hinv.log.qp n hn, hinv.log.keepsQp n⟩

/-! ## Failed handshakes -/

/-- What a handshake has at a phase as long as it has created no queue pair. -/
def Phase.held : Phase → Multiset Resource
  | .start => 0
  | .waiting | .destroying _ | .crashed _ => {.cmId}
  | .returned ret => if ret = 0 then {.cmId} else 0

/-- The handshake has created no queue pair, and has nothing but its `rdma_cm_id`. -/
structure Clean (p : Process) : Prop where
  outcome : OutcomeInv p
  qp : p.queue.qp = none
  held : settle p.queue.log = some p.phase.held

theorem Phase.Listens.held {ph : Phase} (h : ph.Listens) : ph.held = {.cmId} := by
  cases ph with
  | waiting | destroying => rfl
  | start | returned | crashed => exact absurd h id

theorem Clean.step {p : Process} (h : Clean p) (x : Input) (hno : ¬ CreatesQp p x) :
    Clean (p.step x) := by
  have houtcome := h.outcome.step x
  have hstep := step_steps p x
  generalize p.step x = p' at houtcome hstep ⊢
  have hbegun : p.phase = .start → settle p.queue.begun.log = some {.cmId} := by
    intro hp
    have hs := h.held
    rw [hp] at hs
    exact Ledger.settle_acquire hs .cmId
  cases hstep with
  | noId hp | fails hp | succeeds hp =>
    refine ⟨houtcome, h.qp, ?_⟩
    have hs := h.held
    rw [hp] at hs
    exact hs
  | noAddr hp | waits hp => exact ⟨houtcome, h.qp, hbegun hp⟩
  | @handles k ev q' hp hq =>
    have hno' : ¬ k.CreatesQp p.queue ev := fun hnew => hno ⟨k, ev, rfl, hp, hnew⟩
    obtain ⟨hqp, hs⟩ := hq.clean h.qp hno' h.held
    exact ⟨houtcome, hqp, hs⟩
  | crashes hp => exact ⟨houtcome, h.qp, h.held.trans (congrArg some hp.held)⟩
  | @destroys ret hp =>
    refine ⟨houtcome, h.qp, ?_⟩
    have hs := h.held
    rw [hp] at hs
    have hfreed : settle (p.queue.log ++ [.release .cmId]) = some 0 := Ledger.settle_release hs
    have hret : ret ≠ 0 := h.outcome.destroying ret hp
    show settle (p.queue.log ++ [.release .cmId]) = some (if ret = 0 then {.cmId} else 0)
    rw [if_neg hret]
    exact hfreed
  | idle => exact h

/-- What has been logged stays in the log. -/
theorem mem_log_step {p : Process} {e : Ledger.Entry Resource} (h : e ∈ p.queue.log) (x : Input) :
    e ∈ (p.step x).queue.log := by
  have hstep := step_steps p x
  generalize p.step x = p' at hstep ⊢
  cases hstep with
  | noId | crashes | fails | succeeds | idle => exact h
  | noAddr | waits | destroys => exact List.mem_append_left _ h
  | handles _ hq =>
    obtain ⟨l, hl, -⟩ := hq.log
    show e ∈ _
    rw [hl]
    exact List.mem_append_left l h

/-- Once a queue pair has been created, it stays. -/
theorem qp_left {rdev : Bool} {before : List Input} {x : Input}
    (hnew : CreatesQp (after Process.step (.initial rdev) before) x) (rest : List Input) :
    ∃ n, .acquire (.qp n) ∈ (after Process.step (.initial rdev) (before ++ x :: rest)).queue.log := by
  rw [Machine.after_append, Machine.after_cons]
  generalize after Process.step (.initial rdev) before = p at hnew ⊢
  obtain ⟨k, ev, rfl, hp, hnew⟩ := hnew
  have hqp : ∃ n, .acquire (.qp n) ∈ (p.step (.event k ev)).queue.log := by
    have hstep := step_steps p (.event k ev)
    generalize p.step (.event k ev) = p' at hstep ⊢
    cases hstep with
    | handles _ hq => exact hq.creates hnew
    | crashes => cases hnew.1
    | idle hx => exact absurd hp (hx k ev rfl)
  obtain ⟨n, hn⟩ := hqp
  exact ⟨n, Machine.invariant (I := fun p : Process => .acquire (Resource.qp n) ∈ p.queue.log)
    (fun _ x h => mem_log_step h x) hn rest⟩

/-- A handshake that failed leaves nothing exactly if it created no queue pair. -/
theorem leavesNothing_iff {rdev : Bool} {tr : List Input} {ret : ℤ}
    (hphase : (after Process.step (.initial rdev) tr).phase = .returned ret) (hret : ret ≠ 0) :
    LeavesNothing (after Process.step (.initial rdev) tr).queue ↔
      Each Process.step (fun p x => ¬ CreatesQp p x) (.initial rdev) tr := by
  have hinv := Machine.invariant (I := ObjectsInv) (fun _ x h => h.step x) (objectsInv_initial rdev) tr
  constructor
  · rintro ⟨hbal, -⟩ before x rest rfl hnew
    obtain ⟨n, hn⟩ := qp_left hnew rest
    have hcount := hbal.released (.qp n)
    rw [List.count_eq_zero.mpr (hinv.log.keepsQp n)] at hcount
    exact absurd (List.count_eq_zero.mp hcount.symm) (not_not.mpr hn)
  · intro heach
    have hclean : Clean (after Process.step (.initial rdev) tr) := by
      refine Machine.invariant_of_each (fun _ x h hno => h.step x hno) ?_ heach
      exact ⟨outcomeInv_initial rdev, rfl, rfl⟩
    have hs := hclean.held
    rw [hphase, Phase.held, if_neg hret] at hs
    have hbal := (Ledger.balanced_iff hs).mpr rfl
    refine ⟨hbal, fun n before rest heq hacq => ?_⟩
    have hcount := hbal.released (.qp n)
    rw [List.count_eq_zero.mpr (hinv.log.keepsQp n)] at hcount
    exact absurd hacq (List.count_eq_zero.mp hcount.symm)

/-- What `sswap_rdma_init_queue` leaves in a run in which it returns. -/
theorem handshake_objects_iff {rdev : Bool} {tr : List Input} {ret : ℤ}
    (h : (after Process.step (.initial rdev) tr).phase = .returned ret) :
    ((ret ≠ 0 → LeavesNothing (after Process.step (.initial rdev) tr).queue) ∧
        (ret = 0 → AllLive (after Process.step (.initial rdev) tr).queue)) ↔
      (¬ Succeeds rdev tr → Each Process.step (fun p x => ¬ CreatesQp p x) (.initial rdev) tr) ∧
        (Succeeds rdev tr → Since Process.step SetsUp KeepsUp (.initial rdev) tr) := by
  rw [← returned_zero_iff h]
  refine and_congr (forall_congr' fun hret => ?_) (forall_congr' fun hret => ?_)
  · exact leavesNothing_iff h hret
  · subst hret
    exact allLive_iff_since h

/-- A handshake that succeeds. -/
def success : List Input :=
  [.begin true 0, .event allGood .addrResolved, .event allGood .routeResolved,
    .event allGood .established, .wake .completed]

/-- A handshake for which there is no completion queue. -/
def outOfQueues : List Input :=
  [.begin true 0, .event { allGood with allocCq := -12 } .addrResolved, .wake .completed, .destroy]

theorem since_success : Since Process.step SetsUp KeepsUp (.initial false) success := by
  have hdevice : ∀ q, allGood.Device q := fun q => .inr ⟨rfl, rfl, rfl⟩
  refine ⟨[.begin true 0], .event allGood .addrResolved, _, rfl,
    ⟨allGood, _, rfl, trivial, rfl, hdevice _, rfl, rfl, rfl⟩, ?_⟩
  rw [Machine.each_cons, Machine.each_cons, Machine.each_cons]
  refine ⟨?_, ?_, ?_, Machine.each_nil⟩
  all_goals
    intro k ev heq _
    cases heq
  · rfl
  · trivial

theorem each_outOfQueues :
    Each Process.step (fun p x => ¬ CreatesQp p x) (.initial false) outOfQueues := by
  rw [outOfQueues, Machine.each_cons, Machine.each_cons, Machine.each_cons, Machine.each_cons]
  refine ⟨?_, ?_, ?_, ?_, Machine.each_nil⟩
  all_goals
    rintro ⟨k, ev, heq, -, -, -, hcq, -⟩
    cases heq
  cases hcq

/-- Both parts on such runs. -/
theorem handshake_objects_runs :
    AllLive (after Process.step (.initial false) success).queue ∧
      LeavesNothing (after Process.step (.initial false) outOfQueues).queue := by
  have hsuccess : (after Process.step (.initial false) success).phase = .returned 0 := rfl
  have hfailed : (after Process.step (.initial false) outOfQueues).phase = .returned (-12) := rfl
  constructor
  · have hall := (handshake_objects_iff hsuccess).mpr
      ⟨fun hno => absurd ((returned_zero_iff hsuccess).mp rfl) hno, fun _ => since_success⟩
    exact hall.2 rfl
  · have hsucceeds : ¬ Succeeds false outOfQueues := fun hs =>
      absurd ((returned_zero_iff hfailed).mpr hs) (by decide)
    have hall := (handshake_objects_iff hfailed).mpr
      ⟨fun _ => each_outOfQueues, fun hs => absurd hs hsucceeds⟩
    exact hall.1 (by decide)

/-- The server cannot be reached once the connection was requested. -/
def unreached : List Input :=
  [.begin true 0, .event allGood .addrResolved, .event allGood .routeResolved,
    .event allGood .unreachable, .wake .completed, .destroy]

/-- Completion queue and queue pair are left. -/
theorem handshake_objects_counterexample :
    ((after Process.step (.initial false) unreached).phase = .returned (-104) ∧
      (after Process.step (.initial false) unreached).queue.log =
        [.acquire .cmId, .acquire (.cq 0), .acquire (.qp 0), .release .cmId]) ∧
    ¬ ∀ rdev tr ret, (after Process.step (.initial rdev) tr).phase = .returned ret →
      (ret ≠ 0 → LeavesNothing (after Process.step (.initial rdev) tr).queue) ∧
        (ret = 0 → AllLive (after Process.step (.initial rdev) tr).queue) := by
  have hend : (after Process.step (.initial false) unreached).phase = .returned (-104) ∧
      (after Process.step (.initial false) unreached).queue.log =
        [.acquire .cmId, .acquire (.cq 0), .acquire (.qp 0), .release .cmId] := ⟨rfl, rfl⟩
  refine ⟨hend, fun h => ?_⟩
  have hbal := ((h false unreached (-104) hend.1).1 (by decide)).balanced.released (.qp 0)
  rw [hend.2] at hbal
  exact absurd hbal (by decide)

end Multiswap.Handshake
