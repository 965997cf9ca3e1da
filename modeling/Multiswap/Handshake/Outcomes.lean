import Multiswap.Handshake.Defs
import Multiswap.Lib.Machine

/-!
# What one event does

The ways in which a call of `sswap_rdma_cm_handler` can end, each with the queue
that it leaves.
-/

namespace Multiswap.Handshake

open Driver (enodev)
open StateError

/-- `sswap_rdma_get_device` returns a device. -/
def Answers.Device (k : Answers) (q : Queue) : Prop :=
  q.rdev = true ∨ (k.kzalloc = true ∧ k.allocPd = true ∧ k.memMgtExtensions = true)

/-- Some more entries in the log. -/
def Queue.logged (q : Queue) (l : List (Ledger.Entry Resource)) : Queue := { q with log := q.log ++ l }

/-- The queue with a new completion queue. -/
def Queue.withCq (q : Queue) : Queue :=
  { q with rdev := true, cq := .cq q.next, next := q.next + 1 }

/-- The queue with a new completion queue and its queue pair. -/
def Queue.withQp (q : Queue) : Queue := { q.withCq with qp := some q.next }

/-- The handler returns from an event, and how. -/
inductive Handles (k : Answers) : CmEvent → Queue → Queue → Prop where
  | noDevice {q : Queue} (hdev : ¬ k.Device q) : Handles k .addrResolved q (q.report (-enodev))
  | noCq {q : Queue} (hdev : k.Device q) (hcq : k.allocCq ≠ 0) :
    Handles k .addrResolved q ({ q with rdev := true, cq := .err }.report k.allocCq)
  | noQp {q : Queue} (hdev : k.Device q) (hcq : k.allocCq = 0) (hqp : k.createQp ≠ 0) :
    Handles k .addrResolved q
      ((q.withCq.logged [.acquire (.cq q.next), .release (.cq q.next)]).report k.createQp)
  | noRoute {q : Queue} (hdev : k.Device q) (hcq : k.allocCq = 0) (hqp : k.createQp = 0)
      (hroute : k.resolveRoute ≠ 0) :
    Handles k .addrResolved q
      (q.withQp.logged [.acquire (.cq q.next), .acquire (.qp q.next), .release (.cq q.next)])
  | resolved {q : Queue} (hdev : k.Device q) (hcq : k.allocCq = 0) (hqp : k.createQp = 0)
      (hroute : k.resolveRoute = 0) :
    Handles k .addrResolved q (q.withQp.logged [.acquire (.cq q.next), .acquire (.qp q.next)])
  | connecting {q : Queue} (hqp : q.qp ≠ none) (hdev : q.rdev = true) (hconnect : k.connect = 0) :
    Handles k .routeResolved q q
  | noConnect {q : Queue} {n : ℕ} (hqp : q.qp ≠ none) (hdev : q.rdev = true) (hcq : q.cq = .cq n)
      (hconnect : k.connect ≠ 0) :
    Handles k .routeResolved q (q.logged [.release (.cq n)])
  | established {q : Queue} : Handles k .established q (q.report 0)
  | error {q : Queue} {ev : CmEvent} (hev : ev ∈ [.addrError, .routeError, .connectError, CmEvent.unreachable]) :
    Handles k ev q (q.report (-econnreset))
  | ignored {q : Queue} {ev : CmEvent}
      (hev : ev ∈ [.rejected, .disconnected, .addrChange, .timewaitExit, .deviceRemoval,
        CmEvent.other]) :
    Handles k ev q q

variable {k : Answers} {q : Queue}

theorem getDevice_of_device (h : k.Device q) :
    getDevice k q = .ok true { q with rdev := true } := by
  obtain ⟨rdev, cq, qp, cmError, cmDone, next, log⟩ := q
  cases rdev with
  | true => simp [getDevice]
  | false =>
    obtain hset | ⟨hkzalloc, hpd, hext⟩ := h
    · cases hset
    · simp [getDevice, hkzalloc, hpd, hext]

theorem getDevice_of_not (h : ¬ k.Device q) : getDevice k q = .ok false q := by
  rw [Answers.Device, not_or, Bool.not_eq_true] at h
  obtain ⟨hrdev, hfails⟩ := h
  cases hkzalloc : k.kzalloc with
  | false => simp [getDevice, hrdev, hkzalloc]
  | true =>
    cases hpd : k.allocPd with
    | false => simp [getDevice, hrdev, hkzalloc, hpd]
    | true =>
      have hext : k.memMgtExtensions = false :=
        Bool.eq_false_iff.mpr fun hext => hfails ⟨hkzalloc, hpd, hext⟩
      simp [getDevice, hrdev, hkzalloc, hpd, hext]

theorem finish_apply (cmError : ℤ) (q : Queue) :
    finish cmError q = .ok 0 (if cmError ≠ 0 then q.report cmError else q) := by
  by_cases h : cmError = 0 <;> simp [finish, h]

/-- The handler always returns from an address that was resolved. -/
theorem addrResolved_cases (k : Answers) (q : Queue) :
    ∃ q', cmHandler k .addrResolved q = .ok 0 q' ∧ Handles k .addrResolved q q' := by
  by_cases hdev : k.Device q
  · by_cases hcq : k.allocCq = 0
    · by_cases hqp : k.createQp = 0
      · by_cases hroute : k.resolveRoute = 0
        · refine ⟨_, ?_, .resolved hdev hcq hqp hroute⟩
          simp [cmHandler, addrResolved, getDevice_of_device hdev, createQueueIb, createQp,
            finish_apply, hcq, hqp, hroute, Queue.logged, Queue.withQp, Queue.withCq]
        · refine ⟨_, ?_, .noRoute hdev hcq hqp hroute⟩
          simp [cmHandler, addrResolved, getDevice_of_device hdev, createQueueIb, createQp,
            destroyQueueIb, freeCq, finish_apply, hcq, hqp, hroute, Queue.logged, Queue.withQp,
            Queue.withCq]
      · refine ⟨_, ?_, .noQp hdev hcq hqp⟩
        simp [cmHandler, addrResolved, getDevice_of_device hdev, createQueueIb, createQp, freeCq,
          finish_apply, hcq, hqp, Queue.logged, Queue.withCq]
    · refine ⟨_, ?_, .noCq hdev hcq⟩
      simp [cmHandler, addrResolved, getDevice_of_device hdev, createQueueIb, finish_apply, hcq]
  · refine ⟨_, ?_, .noDevice hdev⟩
    simp [cmHandler, addrResolved, getDevice_of_not hdev, finish_apply, enodev]

/-- The handler follows a null pointer or frees no completion queue. -/
def Answers.Crashes (k : Answers) (q : Queue) : Prop :=
  q.qp = none ∨ q.rdev = false ∨ (k.connect ≠ 0 ∧ ∀ n, q.cq ≠ .cq n)

theorem routeResolved_cases (k : Answers) (q : Queue) :
    (∃ q', cmHandler k .routeResolved q = .ok 0 q' ∧ Handles k .routeResolved q q') ∨
      (cmHandler k .routeResolved q = .error .nullDeref q ∧ k.Crashes q) := by
  by_cases hqp : q.qp = none
  · exact .inr ⟨by simp [cmHandler, routeResolved, hqp], .inl hqp⟩
  · cases hdev : q.rdev with
    | false => exact .inr ⟨by simp [cmHandler, routeResolved, hqp, hdev], .inr (.inl hdev)⟩
    | true =>
      by_cases hconnect : k.connect = 0
      · refine .inl ⟨q, ?_, .connecting hqp hdev hconnect⟩
        simp [cmHandler, routeResolved, hqp, hdev, hconnect, finish_apply]
      · cases hcq : q.cq with
        | null =>
          refine .inr ⟨?_, .inr (.inr ⟨hconnect, by simp [hcq]⟩)⟩
          simp [cmHandler, routeResolved, destroyQueueIb, freeCq, hqp, hdev, hconnect, hcq]
        | err =>
          refine .inr ⟨?_, .inr (.inr ⟨hconnect, by simp [hcq]⟩)⟩
          simp [cmHandler, routeResolved, destroyQueueIb, freeCq, hqp, hdev, hconnect, hcq]
        | cq n =>
          refine .inl ⟨_, ?_, .noConnect hqp hdev hcq hconnect⟩
          simp [cmHandler, routeResolved, destroyQueueIb, freeCq, hqp, hdev, hconnect, hcq,
            finish_apply, Queue.logged]

/-- How the handler ends. -/
theorem cmHandler_cases (k : Answers) (ev : CmEvent) (q : Queue) :
    (∃ q', cmHandler k ev q = .ok 0 q' ∧ Handles k ev q q') ∨
      (ev = .routeResolved ∧ cmHandler k ev q = .error .nullDeref q ∧ k.Crashes q) := by
  cases ev with
  | addrResolved => exact .inl (addrResolved_cases k q)
  | routeResolved =>
    obtain hok | herr := routeResolved_cases k q
    · exact .inl hok
    · exact .inr ⟨rfl, herr⟩
  | established => exact .inl ⟨_, rfl, .established⟩
  | addrError | routeError | connectError | unreachable =>
    exact .inl ⟨_, by simp [cmHandler, finish_apply, econnreset], .error (by simp)⟩
  | rejected | disconnected | deviceRemoval | addrChange | timewaitExit | other =>
    exact .inl ⟨_, by simp [cmHandler, finish_apply], .ignored (by simp)⟩

/-! ## Steps -/

/-- The queue with a new `rdma_cm_id`. -/
def Queue.begun (q : Queue) : Queue := { q.logged [.acquire .cmId] with cmError := -etimedout }

/-- What a step does to a process. -/
inductive Steps (p : Process) : Input → Process → Prop where
  | noId {ret : ℤ} (hp : p.phase = .start) :
    Steps p (.begin false ret) { p with phase := .returned (-enodev) }
  | noAddr {ret : ℤ} (hp : p.phase = .start) (hret : ret ≠ 0) :
    Steps p (.begin true ret) { p with phase := .destroying ret, queue := p.queue.begun }
  | waits (hp : p.phase = .start) :
    Steps p (.begin true 0) { p with phase := .waiting, queue := p.queue.begun }
  | handles {k : Answers} {ev : CmEvent} {q' : Queue} (hp : p.phase.Listens)
      (hq : Handles k ev p.queue q') :
    Steps p (.event k ev) { p with queue := q', handled := p.handled ++ [ev] }
  | crashes {k : Answers} (hp : p.phase.Listens) (hcrash : k.Crashes p.queue) :
    Steps p (.event k .routeResolved) { p with phase := .crashed .nullDeref }
  | fails {w : Wakeup} (hp : p.phase = .waiting) (herr : p.queue.cmError ≠ 0) :
    Steps p (.wake w) { p with phase := .destroying p.queue.cmError }
  | succeeds {w : Wakeup} (hp : p.phase = .waiting) (herr : p.queue.cmError = 0) :
    Steps p (.wake w) { p with phase := .returned 0 }
  | destroys {ret : ℤ} (hp : p.phase = .destroying ret) :
    Steps p .destroy { p with phase := .returned ret, queue := p.queue.logged [.release .cmId] }
  | idle {x : Input} (hx : ∀ k ev, x = .event k ev → ¬ p.phase.Listens) : Steps p x p

theorem begin_steps (p : Process) (createId : Bool) (resolveAddr : ℤ) :
    Steps p (.begin createId resolveAddr) (p.step (.begin createId resolveAddr)) := by
  by_cases hp : p.phase = .start
  · cases createId with
    | false =>
      rw [Process.step, if_pos hp]
      exact .noId hp
    | true =>
      rw [Process.step, if_pos hp]
      by_cases hret : resolveAddr = 0
      · subst hret
        exact .waits hp
      · simp only [Bool.not_true, Bool.false_eq_true, if_false, ne_eq, hret, not_false_eq_true, if_true]
        exact .noAddr hp hret
  · rw [Process.step, if_neg hp]
    exact .idle fun _ _ hx => nomatch hx

theorem event_steps (p : Process) (k : Answers) (ev : CmEvent) :
    Steps p (.event k ev) (p.step (.event k ev)) := by
  by_cases hp : p.phase.Listens
  · rw [Process.step, if_pos hp]
    obtain ⟨q', hrun, hq'⟩ | ⟨rfl, hrun, hcrash⟩ := cmHandler_cases k ev p.queue
    · rw [hrun]
      exact .handles hp hq'
    · rw [hrun]
      exact .crashes hp hcrash
  · rw [Process.step, if_neg hp]
    exact .idle fun _ _ _ => hp

theorem wake_steps (p : Process) (w : Wakeup) : Steps p (.wake w) (p.step (.wake w)) := by
  rw [Process.step]
  split
  · next hwake =>
    by_cases herr : p.queue.cmError = 0
    · simp only [herr, ne_eq, not_true_eq_false, if_false]
      exact .succeeds hwake.1 herr
    · simp only [ne_eq, herr, not_false_eq_true, if_true]
      exact .fails hwake.1 herr
  · exact .idle fun _ _ hx => nomatch hx

theorem destroy_steps (p : Process) : Steps p .destroy (p.step .destroy) := by
  obtain ⟨phase, q, handled⟩ := p
  cases phase with
  | destroying ret => exact .destroys rfl
  | start | waiting | returned | crashed => exact .idle fun _ _ hx => nomatch hx

theorem step_steps (p : Process) (x : Input) : Steps p x (p.step x) := by
  cases x with
  | begin createId resolveAddr => exact begin_steps p createId resolveAddr
  | event k ev => exact event_steps p k ev
  | wake w => exact wake_steps p w
  | destroy => exact destroy_steps p

end Multiswap.Handshake
