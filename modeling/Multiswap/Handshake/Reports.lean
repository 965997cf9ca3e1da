import Multiswap.Handshake.Outcomes

/-!
# What the waiter is told

`cm_error` starts as `-ETIMEDOUT` and is 0 only after `ESTABLISHED`, so a handshake
that did not succeed is never taken for one that did. But a rejected connection, a
failed `rdma_resolve_route` and a failed `rdma_connect_locked` do not complete
`cm_done`, and the waiter sits out its timeout. The result is that of the last event
during the wait that reported one.
-/

namespace Multiswap.Handshake

open Machine (after Always Each Since)

/-- An error event, or an event during which a call fails. -/
def Answers.Dooms (k : Answers) (q : Queue) : CmEvent → Prop
  | .addrError | .routeError | .connectError | .unreachable | .rejected => True
  | .addrResolved => ¬ (k.Device q ∧ k.allocCq = 0 ∧ k.createQp = 0 ∧ k.resolveRoute = 0)
  | .routeResolved => k.connect ≠ 0
  | .established | .disconnected | .deviceRemoval | .addrChange | .timewaitExit | .other => False

/-- The handler returns from such an event without a report. -/
def Answers.Silent (k : Answers) (q : Queue) : CmEvent → Prop
  | .rejected => True
  | .addrResolved => k.Device q ∧ k.allocCq = 0 ∧ k.createQp = 0 ∧ k.resolveRoute ≠ 0
  | .routeResolved => k.connect ≠ 0 ∧ ¬ k.Crashes q
  | _ => False

/-- An event comes before `ESTABLISHED`. -/
def Awaits (p : Process) : Prop := p.phase.Listens ∧ .established ∉ p.handled

/-- Once the handler has returned from an event that dooms the handshake, before
`ESTABLISHED`, the waiter is released with an error. -/
def Reports (p : Process) (x : Input) : Prop :=
  ∀ k ev, x = .event k ev → Awaits p → k.Dooms p.queue ev → (p.step x).phase.Listens →
    (p.step x).queue.cmError ≠ 0 ∧ (p.step x).queue.cmDone = true

/-- An event comes silently only when the waiter has been released before. -/
def Voiced (p : Process) (x : Input) : Prop :=
  ∀ k ev, x = .event k ev → Awaits p → p.queue.cmDone = false → ¬ k.Silent p.queue ev

/-- `sswap_rdma_init_queue` has returned 0 only if `ESTABLISHED` was handled. -/
def Honest (p : Process) : Prop := p.phase = .returned 0 → .established ∈ p.handled

/-- The handshake reports its outcome. -/
def ReportsOutcome (rdev : Bool) (tr : List Input) : Prop :=
  Always Process.step Honest (.initial rdev) tr ∧ Each Process.step Reports (.initial rdev) tr

/-- What the result of the handshake rests on. -/
structure OutcomeInv (p : Process) : Prop where
  error : Awaits p → p.queue.cmError ≠ 0
  destroying : ∀ ret, p.phase = .destroying ret → ret ≠ 0
  honest : Honest p

theorem outcomeInv_initial (rdev : Bool) : OutcomeInv (.initial rdev) where
  error h := absurd h.1 id
  destroying _ h := by cases h
  honest h := by cases h

section Event

variable {k : Answers} {ev : CmEvent} {q q' : Queue}

/-- Only `ESTABLISHED` sets `cm_error` to 0. -/
theorem Handles.cmError_ne (h : Handles k ev q q') (hev : ev ≠ .established)
    (hq : q.cmError ≠ 0) : q'.cmError ≠ 0 := by
  cases h with
  | noDevice => show -Driver.enodev ≠ 0; decide
  | noCq _ hcq => exact hcq
  | noQp _ _ hqp => exact hqp
  | noRoute | resolved | connecting | noConnect | ignored => exact hq
  | established => exact absurd rfl hev
  | error => show -econnreset ≠ 0; decide

/-- An event that dooms the handshake is reported or silent, and a silent one changes
nothing that the waiter reads. -/
theorem Handles.report_or_silent (h : Handles k ev q q') (hdoom : k.Dooms q ev) :
    (¬ k.Silent q ev ∧ q'.cmError ≠ 0 ∧ q'.cmDone = true) ∨
      (k.Silent q ev ∧ q'.cmError = q.cmError ∧ q'.cmDone = q.cmDone) := by
  cases h with
  | noDevice hdev =>
    refine .inl ⟨fun hs => hdev hs.1, ?_, rfl⟩
    show -Driver.enodev ≠ 0
    decide
  | noCq _ hcq => exact .inl ⟨fun hs => hcq hs.2.1, hcq, rfl⟩
  | noQp _ _ hqp => exact .inl ⟨fun hs => hqp hs.2.2.1, hqp, rfl⟩
  | noRoute hdev hcq hqp hroute => exact .inr ⟨⟨hdev, hcq, hqp, hroute⟩, rfl, rfl⟩
  | resolved hdev hcq hqp hroute => exact absurd ⟨hdev, hcq, hqp, hroute⟩ hdoom
  | connecting _ _ hconnect => exact absurd hconnect hdoom
  | noConnect hqp hdev hcq hconnect =>
    refine .inr ⟨⟨hconnect, ?_⟩, rfl, rfl⟩
    rintro (hnull | hrdev | ⟨-, hbad⟩)
    · exact hqp hnull
    · rw [hdev] at hrdev
      cases hrdev
    · exact hbad _ hcq
  | established => exact absurd hdoom id
  | error hev =>
    simp only [List.mem_cons, List.not_mem_nil, or_false] at hev
    refine .inl ⟨?_, ?_, rfl⟩
    · obtain rfl | rfl | rfl | rfl := hev <;> exact id
    · show -econnreset ≠ 0
      decide
  | ignored hev =>
    simp only [List.mem_cons, List.not_mem_nil, or_false] at hev
    obtain rfl | rfl | rfl | rfl | rfl | rfl := hev
    · exact .inr ⟨trivial, rfl, rfl⟩
    all_goals exact absurd hdoom id

theorem Answers.Silent.dooms (h : k.Silent q ev) : k.Dooms q ev := by
  cases ev with
  | addrResolved => exact fun hall => h.2.2.2 hall.2.2.2
  | routeResolved => exact h.1
  | rejected => trivial
  | _ => exact absurd h id

end Event

theorem OutcomeInv.steps {p p' : Process} {x : Input} (h : OutcomeInv p) (hstep : Steps p x p') :
    OutcomeInv p' := by
  cases hstep with
  | noId => exact ⟨fun ha => absurd ha.1 id, nofun, nofun⟩
  | noAddr _ hret =>
    refine ⟨fun _ => ?_, fun ret hp => ?_, nofun⟩
    · show -etimedout ≠ 0
      decide
    · cases hp
      exact hret
  | waits =>
    refine ⟨fun _ => ?_, nofun, nofun⟩
    show -etimedout ≠ 0
    decide
  | handles hp hq =>
    refine ⟨fun ha => ?_, h.destroying, fun hret => ?_⟩
    · have hout := List.mem_append.not.mp ha.2
      rw [not_or, List.mem_singleton] at hout
      exact hq.cmError_ne (Ne.symm hout.2) (h.error ⟨hp, hout.1⟩)
    · exact List.mem_append_left _ (h.honest hret)
  | crashes => exact ⟨fun ha => absurd ha.1 id, nofun, nofun⟩
  | fails _ herr =>
    refine ⟨fun _ => herr, fun ret hp => ?_, nofun⟩
    cases hp
    exact herr
  | succeeds hp herr =>
    refine ⟨fun ha => absurd ha.1 id, nofun, fun _ => ?_⟩
    by_contra hnot
    exact h.error ⟨hp ▸ trivial, hnot⟩ herr
  | destroys hp =>
    refine ⟨fun ha => absurd ha.1 id, nofun, fun hret => ?_⟩
    cases hret
    exact absurd rfl (h.destroying 0 hp)
  | idle => exact h

theorem OutcomeInv.step {p : Process} (h : OutcomeInv p) (x : Input) : OutcomeInv (p.step x) :=
  h.steps (step_steps p x)

/-- A step reports exactly if it is voiced. -/
theorem reports_iff {p : Process} (h : OutcomeInv p) (x : Input) : Reports p x ↔ Voiced p x := by
  refine forall_congr' fun k => forall_congr' fun ev => forall_congr' fun hx =>
    forall_congr' fun ha => ?_
  subst hx
  have hstep := step_steps p (.event k ev)
  generalize p.step (.event k ev) = p' at hstep ⊢
  cases hstep with
  | handles _ hq =>
    constructor
    · intro hreports hdone hsilent
      obtain ⟨-, htrue⟩ := hreports hsilent.dooms ha.1
      obtain ⟨hnot, -⟩ | ⟨-, -, hsame⟩ := hq.report_or_silent hsilent.dooms
      · exact hnot hsilent
      · rw [hsame, hdone] at htrue
        cases htrue
    · intro hvoiced hdoom _
      obtain ⟨-, hreport⟩ | ⟨hsilent, herr, hdone⟩ := hq.report_or_silent hdoom
      · exact hreport
      · dsimp only
        rw [herr, hdone]
        exact ⟨h.error ha, Bool.of_not_eq_false fun hfalse => hvoiced hfalse hsilent⟩
  | crashes _ hcrash =>
    constructor
    · intro _ _ hsilent
      exact hsilent.2 hcrash
    · intro _ _ hlistens
      exact absurd hlistens id
  | idle hx => exact absurd ha.1 (hx k ev rfl)

/-- In every run the handshake reports its outcome exactly if all its events are voiced. -/
theorem reports_outcome_iff (rdev : Bool) (tr : List Input) :
    ReportsOutcome rdev tr ↔ Each Process.step Voiced (.initial rdev) tr := by
  have heach : Each Process.step Reports (.initial rdev) tr ↔ Each Process.step Voiced (.initial rdev) tr :=
    Machine.each_iff_each (I := OutcomeInv) (fun _ x h _ => h.step x) (fun _ x h => reports_iff h x)
      (outcomeInv_initial rdev)
  rw [ReportsOutcome, heach]
  refine and_iff_right fun before rest _ => ?_
  exact (Machine.invariant (I := OutcomeInv) (fun _ x h => h.step x) (outcomeInv_initial rdev) before).honest

/-- All calls succeed. -/
def allGood : Answers := ⟨true, true, true, 0, 0, 0, 0⟩

/-- The server rejects the connection. -/
def rejection : List Input :=
  [.begin true 0, .event allGood .addrResolved, .event allGood .routeResolved,
    .event allGood .rejected]

/-- After a rejection nobody has completed `cm_done`. -/
theorem reports_outcome_counterexample :
    ((after Process.step (.initial false) rejection).phase = .waiting ∧
      (after Process.step (.initial false) rejection).queue.cmDone = false) ∧
    ¬ ∀ rdev tr, ReportsOutcome rdev tr := by
  have hend : (after Process.step (.initial false) rejection).phase = .waiting ∧
      (after Process.step (.initial false) rejection).queue.cmDone = false := ⟨rfl, rfl⟩
  refine ⟨hend, fun h => ?_⟩
  have hreports := (h false rejection).2 (rejection.take 3) (.event allGood .rejected) [] rfl
  have hdone := (hreports allGood .rejected rfl ⟨trivial, by decide⟩ trivial trivial).2
  cases hdone

/-! ## The result -/

/-- An event during which an error is reported, or the handler crashes. -/
def Answers.Aborts (k : Answers) (q : Queue) : CmEvent → Prop
  | .addrError | .routeError | .connectError | .unreachable => True
  | .addrResolved => ¬ (k.Device q ∧ k.allocCq = 0 ∧ k.createQp = 0)
  | .routeResolved => k.Crashes q
  | _ => False

/-- `ESTABLISHED` comes during the wait. -/
def Establishes (p : Process) (x : Input) : Prop :=
  p.phase = .waiting ∧ ∃ k, x = .event k .established

/-- Such an event comes during the wait. -/
def Aborts (p : Process) (x : Input) : Prop :=
  p.phase = .waiting ∧ ∃ k ev, x = .event k ev ∧ k.Aborts p.queue ev

/-- `ESTABLISHED` comes during the wait, and no error after it. -/
def Succeeds (rdev : Bool) (tr : List Input) : Prop :=
  Since Process.step Establishes (fun p x => ¬ Aborts p x) (.initial rdev) tr

/-- The wait has ended well, or would if it ended now. -/
def Process.Up (p : Process) : Prop :=
  (p.phase = .waiting ∧ p.queue.cmError = 0) ∨ p.phase = .returned 0

/-- After an event the error is 0 if it was `ESTABLISHED`, or if it was 0 before and none
is reported. -/
theorem Handles.cmError_eq_zero_iff {k : Answers} {ev : CmEvent} {q q' : Queue}
    (h : Handles k ev q q') :
    q'.cmError = 0 ↔ ev = .established ∨ (q.cmError = 0 ∧ ¬ k.Aborts q ev) := by
  have hreported (he : q'.cmError ≠ 0) (hev : ev ≠ .established) (habort : k.Aborts q ev) :
      q'.cmError = 0 ↔ ev = .established ∨ (q.cmError = 0 ∧ ¬ k.Aborts q ev) := by
    simp only [he, hev, habort, not_true_eq_false, and_false, or_false]
  have hkept (he : q'.cmError = q.cmError) (hev : ev ≠ .established) (hno : ¬ k.Aborts q ev) :
      q'.cmError = 0 ↔ ev = .established ∨ (q.cmError = 0 ∧ ¬ k.Aborts q ev) := by
    simp only [he, hev, hno, not_false_eq_true, and_true, false_or]
  cases h with
  | noDevice hdev =>
    refine hreported ?_ (by decide) fun hall => hdev hall.1
    show -Driver.enodev ≠ 0
    decide
  | noCq _ hcq => exact hreported hcq (by decide) fun hall => hcq hall.2.1
  | noQp _ _ hqp => exact hreported hqp (by decide) fun hall => hqp hall.2.2
  | noRoute hdev hcq hqp | resolved hdev hcq hqp =>
    exact hkept rfl (by decide) fun habort => habort ⟨hdev, hcq, hqp⟩
  | connecting hqp hdev hconnect =>
    refine hkept rfl (by decide) ?_
    rintro (hnull | hrdev | ⟨hfails, -⟩)
    · exact hqp hnull
    · rw [hdev] at hrdev
      cases hrdev
    · exact hfails hconnect
  | noConnect hqp hdev hcq =>
    refine hkept rfl (by decide) ?_
    rintro (hnull | hrdev | ⟨-, hbad⟩)
    · exact hqp hnull
    · rw [hdev] at hrdev
      cases hrdev
    · exact hbad _ hcq
  | established => exact iff_of_true rfl (.inl rfl)
  | error hev =>
    simp only [List.mem_cons, List.not_mem_nil, or_false] at hev
    have he : -econnreset ≠ 0 := by decide
    obtain rfl | rfl | rfl | rfl := hev <;> exact hreported he (by decide) trivial
  | ignored hev =>
    simp only [List.mem_cons, List.not_mem_nil, or_false] at hev
    obtain rfl | rfl | rfl | rfl | rfl | rfl := hev <;> exact hkept rfl (by decide) id

theorem Process.up_iff_of_waiting {p : Process} (hp : p.phase = .waiting) :
    p.Up ↔ p.queue.cmError = 0 := by
  rw [Process.Up, hp]
  simp only [true_and, reduceCtorEq, or_false]

theorem Process.not_up {p : Process} (hw : p.phase ≠ .waiting) (hr : p.phase ≠ .returned 0) :
    ¬ p.Up := by
  rintro (⟨hp, -⟩ | hp)
  · exact hw hp
  · exact hr hp

/-- A process is up after a step with `ESTABLISHED`, or if it was and nothing went wrong. -/
theorem up_step_iff {p : Process} (h : OutcomeInv p) (x : Input) :
    (p.step x).Up ↔ Establishes p x ∨ (p.Up ∧ ¬ Aborts p x) := by
  have hstep := step_steps p x
  generalize p.step x = p' at hstep ⊢
  -- Without an event during the wait nothing is established and nothing goes wrong.
  have hquiet (hx : ∀ k ev, x = .event k ev → p.phase ≠ .waiting) (hsame : p'.Up ↔ p.Up) :
      p'.Up ↔ Establishes p x ∨ (p.Up ∧ ¬ Aborts p x) := by
    have hest : ¬ Establishes p x := by
      rintro ⟨hp, k, rfl⟩
      exact hx k _ rfl hp
    have habort : ¬ Aborts p x := by
      rintro ⟨hp, k, ev, rfl, -⟩
      exact hx k ev rfl hp
    rw [hsame]
    simp only [hest, habort, not_false_eq_true, and_true, false_or]
  have hstart (hp : p.phase = .start) : ¬ p.Up := Process.not_up (by simp [hp]) (by simp [hp])
  cases hstep with
  | noId hp =>
    refine hquiet (fun _ _ => Input.noConfusion) (iff_of_false ?_ (hstart hp))
    exact Process.not_up Phase.noConfusion (by simp [Driver.enodev])
  | noAddr hp =>
    refine hquiet (fun _ _ => Input.noConfusion) (iff_of_false ?_ (hstart hp))
    exact Process.not_up Phase.noConfusion Phase.noConfusion
  | waits hp =>
    refine hquiet (fun _ _ => Input.noConfusion) (iff_of_false ?_ (hstart hp))
    rw [Process.up_iff_of_waiting rfl]
    show ¬ -etimedout = 0
    decide
  | @handles k ev q' hp hq =>
    by_cases hw : p.phase = .waiting
    · have hest : Establishes p (.event k ev) ↔ ev = .established := by
        constructor
        · rintro ⟨-, k', heq⟩
          cases heq
          rfl
        · rintro rfl
          exact ⟨hw, k, rfl⟩
      have habort : Aborts p (.event k ev) ↔ k.Aborts p.queue ev := by
        constructor
        · rintro ⟨-, k', ev', heq, ha⟩
          cases heq
          exact ha
        · intro ha
          exact ⟨hw, k, ev, rfl, ha⟩
      rw [hest, habort, Process.up_iff_of_waiting hw, ← hq.cmError_eq_zero_iff]
      exact Process.up_iff_of_waiting hw
    · refine hquiet (fun _ _ _ => hw) ?_
      simp only [Process.Up, hw, false_and]
  | @crashes k hp hcrash =>
    refine iff_of_false (Process.not_up Phase.noConfusion Phase.noConfusion) ?_
    rintro (⟨-, k', heq⟩ | ⟨⟨hw, -⟩ | hret, hno⟩)
    · cases heq
    · exact hno ⟨hw, k, _, rfl, hcrash⟩
    · rw [hret] at hp
      exact absurd hp id
  | fails hp herr =>
    refine hquiet (fun _ _ => Input.noConfusion) (iff_of_false ?_ ?_)
    · exact Process.not_up Phase.noConfusion Phase.noConfusion
    · rwa [Process.up_iff_of_waiting hp]
  | succeeds hp herr =>
    exact hquiet (fun _ _ => Input.noConfusion) (iff_of_true (.inr rfl) (.inl ⟨hp, herr⟩))
  | @destroys ret hp =>
    refine hquiet (fun _ _ => Input.noConfusion) (iff_of_false ?_ ?_)
    · refine Process.not_up Phase.noConfusion fun hret => ?_
      cases hret
      exact h.destroying 0 hp rfl
    · exact Process.not_up (by simp [hp]) (by simp [hp])
  | idle hx => exact hquiet (fun k ev heq hw => hx k ev heq (hw ▸ trivial)) Iff.rfl

/-- `sswap_rdma_init_queue` returns 0 in the runs that succeed, and in no others. -/
theorem returned_zero_iff {rdev : Bool} {tr : List Input} {ret : ℤ}
    (h : (after Process.step (.initial rdev) tr).phase = .returned ret) :
    ret = 0 ↔ Succeeds rdev tr := by
  have hinitial : ¬ (Process.initial rdev).Up := Process.not_up Phase.noConfusion Phase.noConfusion
  rw [Succeeds, ← Machine.after_iff_since (I := OutcomeInv) (P := Process.Up) (fun _ x h => h.step x)
    (fun _ x h => up_step_iff h x) (outcomeInv_initial rdev) hinitial, Process.Up, h]
  simp only [reduceCtorEq, false_and, false_or, Phase.returned.injEq]

end Multiswap.Handshake
