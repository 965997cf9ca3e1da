import Multiswap.Concurrent.RoundTrip
import Multiswap.Queue.Progress
import Multiswap.Transport.Placement
import Multiswap.Transport.Refinement

/-!
# Every atomic run is a run over the queues

The other direction of the refinement: whatever the calls do with atomic transfers, they
can do over the queues, with one transfer at a time. So the histories of the two systems
are the same, and atomic transfers promise nothing that the queues do not keep, nor less.
-/

namespace Multiswap.Transport

open Concurrent (Op)
open Queue (Calm Internal Reaches)
open Rdma (Host WcStatus numServer sswapRdmaGetQueue)
open Transition.System (Steps)

section Queues

variable {n : ℕ} {u : Queue.State (Fin n)} {p : Fin n} {c : Queue.Call}

/-- The request that a call on a calm queue gets. -/
def nextRequest (u : Queue.State (Fin n)) (c : Queue.Call) : Queue.Req := ⟨u.nextReq, c, 4096⟩

/-- A calm queue on which the call of `p` has gone on to `pc` with the next request. -/
def alone (u : Queue.State (Fin n)) (p : Fin n) (pc : Queue.Pc) (pending : ℤ)
    (inflight : List Queue.Req) (cq : List (Queue.Req × WcStatus)) : Queue.State (Fin n) :=
  { u with
    pending := pending
    inflight := inflight
    cq := cq
    nextReq := u.nextReq + 1
    pc := Function.update u.pc p pc }

theorem alone_eq (hc : Calm u) (p : Fin n) (pc : Queue.Pc) (pending : ℤ)
    (cq : List (Queue.Req × WcStatus)) :
    alone u p pc pending [] cq = { u with nextReq := u.nextReq + 1 }.put p pc pending none cq := by
  simp [alone, Queue.State.put, hc.cqLock, hc.inflight]

/-- A call on a calm queue comes to its post. -/
theorem reaches_posting (hc : Calm u) (hpc : u.pc p = .pressure c) :
    Reaches u (alone u p (.post c (nextRequest u c)) 1 [] []) := by
  have hpass : Reaches u (u.goto p (.alloc c)) := by
    have hlt := (Queue.loopsLeave_of_zero hc.pending c (.drain 0)).2
    exact .step (.pressurePass p hpc hlt) rfl (by simp [hpc]) le_rfl (by simp)
  have halloc : Reaches (u.goto p (.alloc c))
      { u.goto p (.map c u.nextReq) with nextReq := u.nextReq + 1 } := by
    have hto : { (u.goto p (.alloc c)).goto p (.map c u.nextReq) with nextReq := u.nextReq + 1 } =
        { u.goto p (.map c u.nextReq) with nextReq := u.nextReq + 1 } := by
      simp [Queue.State.goto]
    rw [← hto]
    exact .step (.alloc p (Function.update_self ..)) rfl (by simp [Queue.State.goto]) le_rfl
      (by simp [Queue.Event.Inside])
  have hmap : Reaches { u.goto p (.map c u.nextReq) with nextReq := u.nextReq + 1 }
      { u.goto p (.raise c (nextRequest u c)) with nextReq := u.nextReq + 1 } := by
    have hto : { u.goto p (.map c u.nextReq) with nextReq := u.nextReq + 1 }.goto p
        (.raise c (nextRequest u c)) =
          { u.goto p (.raise c (nextRequest u c)) with nextReq := u.nextReq + 1 } := by
      simp [Queue.State.goto]
    rw [← hto]
    exact .step (.map p 4096 (Function.update_self ..)) rfl (by simp [Queue.State.goto]) le_rfl
      (by simp [Queue.Event.Inside])
  have hraise : Reaches { u.goto p (.raise c (nextRequest u c)) with nextReq := u.nextReq + 1 }
      (alone u p (.post c (nextRequest u c)) 1 [] []) := by
    have hto : { ({ u.goto p (.raise c (nextRequest u c)) with
        nextReq := u.nextReq + 1 } : Queue.State (Fin n)).goto p (.post c (nextRequest u c)) with
          pending := u.pending + 1 } = alone u p (.post c (nextRequest u c)) 1 [] [] := by
      simp [Queue.State.goto, alone, hc.pending, hc.inflight, hc.cq]
    rw [← hto]
    exact .step (.raise p (Function.update_self ..) (Nat.succ_ne_zero _)) rfl
      (by simp [Queue.State.goto]) le_rfl (by simp)
  exact ((hpass.trans halloc).trans hmap).trans hraise

end Queues

variable {α : Type} {n : ℕ} {cfg : Config} {host : Host} {s s' : State α n} {p : Fin n} {q : QueueId}

/-- Steps inside the calls of one queue. -/
theorem steps_internal {u t : Queue.State (Fin n)} {ev : List (Queue.Event (Fin n))}
    (h : Steps Internal u ev t) : Steps (Step cfg host) (s.setQueue q u) (ev.map (.onQueue q))
      (s.setQueue q t) := by
  induction h with
  | refl => exact .refl _
  | @tail u₁ u₂ ev ev' _ hi ih =>
    have hto : (s.setQueue q u₁).setQueue q u₂ = s.setQueue q u₂ := by simp [State.setQueue]
    have hstep : Step cfg host (s.setQueue q u₁) (ev'.map (.onQueue q))
        ((s.setQueue q u₁).setQueue q u₂) := .internal q (by simpa [State.setQueue] using hi)
    rw [hto] at hstep
    rw [List.map_append]
    exact ih.tail hstep

/-- Steps that show no failure, and these returned calls. -/
def Goes (cfg : Config) (host : Host) (s : State α n) (ret : List (Concurrent.Event α))
    (s' : State α n) : Prop :=
  ∃ ev, Steps (Step cfg host) s ev s' ∧ Clean ev ∧ returns ev = ret

theorem Clean.append {tr ev : List (Event α n)} (h : Clean tr) (h' : Clean ev) :
    Clean (tr ++ ev) where
  mapped q i hmem := (List.mem_append.mp hmem).elim (h.mapped q i) (h'.mapped q i)
  moved q r code hmem := (List.mem_append.mp hmem).elim (h.moved q r code) (h'.moved q r code)

theorem Goes.trans {s₁ s₂ : State α n} {ret ret' : List (Concurrent.Event α)}
    (h : Goes cfg host s ret s₁) (h' : Goes cfg host s₁ ret' s₂) :
    Goes cfg host s (ret ++ ret') s₂ := by
  obtain ⟨ev, hs, hclean, rfl⟩ := h
  obtain ⟨ev', hs', hclean', rfl⟩ := h'
  exact ⟨ev ++ ev', hs.trans hs', hclean.append hclean', returns_append ev ev'⟩

theorem Goes.reaches {u t : Queue.State (Fin n)} (h : Reaches u t) :
    Goes cfg host (s.setQueue q u) [] (s.setQueue q t) := by
  obtain ⟨ev, hin, hs⟩ := h
  refine ⟨_, steps_internal hs, ⟨fun q' i hmem => ?_, fun q' r code hmem => ?_⟩, returns_onQueue q ev⟩
  · obtain ⟨e, he, heq⟩ := List.mem_map.mp hmem
    cases heq
    exact hin _ he
  · obtain ⟨e, -, heq⟩ := List.mem_map.mp hmem
    cases heq

/-- One step that fails nothing. -/
theorem Goes.step {ev : List (Event α n)} {ret : List (Concurrent.Event α)}
    (hs : Step cfg host s ev s') (hmapped : ∀ q i, .onQueue q (.mapFailed i) ∉ ev)
    (hmoved : ∀ q r code, .completed q r (.error code) ∉ ev) (hret : returns ev = ret) :
    Goes cfg host s ret s' :=
  ⟨ev, .single hs, ⟨hmapped, hmoved⟩, hret⟩

/-! ## One transfer at a time -/

/-- All queues are calm, and no call has picked one. -/
structure AtRest (s : State α n) : Prop where
  via : ∀ p, s.via p = none
  calm : ∀ q, Calm (s.queues q)

/-- The queue of a transfer that runs on processor 0. -/
def firstQueue (host : Host) (x : Transfer) : QueueId :=
  ⟨x.dev, sswapRdmaGetQueue host 0 (queueType x.opcode)⟩

/-- The call has picked a queue. -/
def State.pick (s : State α n) (p : Fin n) (q : QueueId) : State α n :=
  { s with via := Function.update s.via p (some q) }

/-- The request has been given its remote address. -/
def State.address (s : State α n) (q : QueueId) (r : Queue.Req) (roffset : ℕ) : State α n :=
  { s with roffset := Function.update s.roffset q (Function.update (s.roffset q) r roffset) }

/-- The call has posted `r` on `q`, and the hardware has moved its data. -/
def State.moved (s : State α n) (p : Fin n) (q : QueueId) (x : Transfer) (r : Queue.Req) : State α n :=
  ((s.pick p q).address q r x.roffset).moveData q r .success

theorem moveData_setQueue (s : State α n) (q : QueueId) (u : Queue.State (Fin n)) (r : Queue.Req)
    (status : WcStatus) : (s.setQueue q u).moveData q r status = (s.moveData q r status).setQueue q u := by
  cases status with
  | error code => rfl
  | success =>
    unfold State.moveData
    cases r.call.op <;> rfl

section Stages

variable {u : Queue.State (Fin n)} {c : Queue.Call} {r : Queue.Req} {x : Transfer}

/-- The call picks a queue and comes to its post. -/
theorem goes_started {cpuid : ℕ} (hvia : s.via p = none) (hcalm : Calm (s.queues q))
    (hx : transfer? (s.driver.op p) = some x) (hdev : x.dev < numServer)
    (hcpu : cpuid < host.numcpus)
    (hq : q = ⟨x.dev, sswapRdmaGetQueue host cpuid (queueType x.opcode)⟩)
    (hcall : c = ⟨x.opcode, p⟩) :
    Goes cfg host s [] ((s.pick p q).setQueue q
      (alone (s.queues q) p (.post c (nextRequest (s.queues q) c)) 1 [] [])) := by
  subst hcall
  refine (Goes.step (.start p cpuid hx hvia hdev hcpu hq) (by simp) (by simp) rfl).trans ?_
  have hreach := reaches_posting (p := p) (c := ⟨x.opcode, p⟩)
    (u := (s.queues q).goto p (.pressure ⟨x.opcode, p⟩))
    ⟨hcalm.1, hcalm.2, hcalm.3, hcalm.4⟩ (Function.update_self ..)
  have hto : alone ((s.queues q).goto p (.pressure ⟨x.opcode, p⟩)) p = alone (s.queues q) p := by
    funext a b d e
    simp [alone, Queue.State.goto]
  rw [hto] at hreach
  exact .reaches (s := s.pick p q) hreach

/-- The post is accepted. -/
theorem goes_posted (hx : transfer? (s.driver.op p) = some x) :
    Goes cfg host (s.setQueue q (alone u p (.post c r) 1 [] [])) []
      ((s.address q r x.roffset).setQueue q (alone u p (.loop c (.drain 0)) 1 [r] [])) := by
  have hstep : Queue.Step (alone u p (.post c r) 1 [] []) [.posted p r]
      (alone u p (.loop c (.drain 0)) 1 [r] []) := by
    have hto : { (alone u p (.post c r) 1 [] []).goto p (Queue.afterAdd c 0) with
        inflight := [] ++ [r] } = alone u p (.loop c (.drain 0)) 1 [r] [] := by
      simp [alone, Queue.State.goto, Queue.afterAdd_zero]
    rw [← hto]
    exact .post p (Function.update_self ..)
  have hto : { (s.setQueue q (alone u p (.post c r) 1 [] [])).setQueue q
      (alone u p (.loop c (.drain 0)) 1 [r] []) with
        roffset := Function.update s.roffset q (Function.update (s.roffset q) r x.roffset) } =
      (s.address q r x.roffset).setQueue q (alone u p (.loop c (.drain 0)) 1 [r] []) := by
    simp [State.setQueue, State.address]
  rw [← hto]
  exact .step (.post q p hx (by simpa [State.setQueue] using hstep)) (by simp) (by simp) rfl

theorem goes_completed : Goes cfg host (s.setQueue q (alone u p (.loop c (.drain 0)) 1 [r] [])) []
    ((s.moveData q r .success).setQueue q
      (alone u p (.loop c (.drain 0)) 1 [] [(r, .success)])) := by
  have hto : ((s.setQueue q (alone u p (.loop c (.drain 0)) 1 [r] [])).moveData q r .success).setQueue q
      { (s.setQueue q (alone u p (.loop c (.drain 0)) 1 [r] [])).queues q with
        inflight := [] ++ []
        cq := ((s.setQueue q (alone u p (.loop c (.drain 0)) 1 [r] [])).queues q).cq ++
          [(r, .success)] } =
      (s.moveData q r .success).setQueue q (alone u p (.loop c (.drain 0)) 1 [] [(r, .success)]) := by
    rw [moveData_setQueue]
    simp [State.setQueue, alone]
  rw [← hto]
  exact .step (.complete q .success (by simp [State.setQueue, alone])) (by simp) (by simp) rfl

theorem goes_drained (hc : Calm u) :
    Goes cfg host (s.setQueue q (alone u p (.loop c (.drain 0)) 1 [] [(r, .success)])) []
      (s.setQueue q (alone u p (.loop c (.drain 0)) 0 [] [])) := by
  rw [alone_eq hc, alone_eq hc]
  exact .reaches (Queue.reaches_drained [(r, .success)] 1 le_rfl)

/-- The call returns. -/
theorem left_step : Step cfg host (s.setQueue q (alone u p (.loop c (.drain 0)) 0 [] []))
    [.onQueue q (.returned p c 0), .returned (s.result p 0)]
      { (s.setOp p .idle).setQueue q (alone u p .idle 0 [] []) with
        via := Function.update s.via p none } := by
  have hstep : Queue.Step (alone u p (.loop c (.drain 0)) 0 [] []) [.returned p c 0]
      (alone u p .idle 0 [] []) := by
    have hto : (alone u p (.loop c (.drain 0)) 0 [] []).goto p .idle = alone u p .idle 0 [] [] := by
      simp [alone, Queue.State.goto]
    rw [← hto]
    exact .drainLeave p (Function.update_self ..) (by simp [Queue.Loop.KeepsPolling, alone])
  have hto : { ((s.setQueue q (alone u p (.loop c (.drain 0)) 0 [] [])).setOp p .idle).setQueue q
      (alone u p .idle 0 [] []) with via := Function.update s.via p none } =
      { (s.setOp p .idle).setQueue q (alone u p .idle 0 [] []) with
        via := Function.update s.via p none } := by
    simp [State.setQueue, State.setOp]
  rw [← hto]
  exact .leave q p (by simpa [State.setQueue] using hstep)

end Stages

variable {x : Transfer} {c : Queue.Call} {r : Queue.Req}

/-- The call has its request in flight. -/
theorem goes_inflight (cfg : Config) {cpuid : ℕ} (hvia : s.via p = none) (hcalm : Calm (s.queues q))
    (hx : transfer? (s.driver.op p) = some x) (hdev : x.dev < numServer)
    (hcpu : cpuid < host.numcpus)
    (hq : q = ⟨x.dev, sswapRdmaGetQueue host cpuid (queueType x.opcode)⟩)
    (hcall : c = ⟨x.opcode, p⟩) (hnext : r = nextRequest (s.queues q) c) :
    Goes cfg host s [] (((s.pick p q).address q r x.roffset).setQueue q
      (alone (s.queues q) p (.loop c (.drain 0)) 1 [r] [])) := by
  subst hnext
  exact (goes_started hvia hcalm hx hdev hcpu hq hcall).trans (goes_posted hx)

/-- A call gets its request in flight, and leaves the other calls and queues as they are. -/
theorem exists_posted (cfg : Config) (host : Host) (cpuid : ℕ) (hvia : s.via p = none)
    (hcalm : Calm (s.queues q)) (hx : transfer? (s.driver.op p) = some x)
    (hdev : x.dev < numServer) (hcpu : cpuid < host.numcpus)
    (hq : q = ⟨x.dev, sswapRdmaGetQueue host cpuid (queueType x.opcode)⟩) :
    ∃ s' r, Goes cfg host s [] s' ∧ r ∈ (s'.queues q).inflight ∧ r.call = ⟨x.opcode, p⟩ ∧
      s'.driver = s.driver ∧ (∀ p' ≠ p, s'.via p' = s.via p') ∧
        ∀ q' ≠ q, s'.queues q' = s.queues q' := by
  refine ⟨_, nextRequest (s.queues q) ⟨x.opcode, p⟩,
    goes_inflight cfg hvia hcalm hx hdev hcpu hq rfl rfl, ?_, rfl, rfl, fun p' hne => ?_,
    fun q' hne => ?_⟩
  · simp [State.setQueue, alone]
  · exact Function.update_of_ne hne _ _
  · exact Function.update_of_ne hne _ _

/-- The data of the call has been moved, and its completion handled. -/
theorem goes_moved (cfg : Config) (hr : AtRest s) (hx : transfer? (s.driver.op p) = some x)
    (hdev : x.dev < numServer) (hcpu : 0 < host.numcpus) (hq : q = firstQueue host x)
    (hcall : c = ⟨x.opcode, p⟩) (hnext : r = nextRequest (s.queues q) c) :
    Goes cfg host s [] ((s.moved p q x r).setQueue q
      (alone (s.queues q) p (.loop c (.drain 0)) 0 [] [])) :=
  ((goes_inflight cfg (hr.via p) (hr.calm q) hx hdev hcpu hq hcall hnext).trans goes_completed).trans
    (goes_drained (hr.calm q))

/-- On calm queues a call runs its transfer from the start to the return. -/
theorem goes_transfer (cfg : Config) (hr : AtRest s) (hx : transfer? (s.driver.op p) = some x)
    (hdev : x.dev < numServer) (hcpu : 0 < host.numcpus) :
    ∃ r : Queue.Req, ∃ s', r.call = ⟨x.opcode, p⟩ ∧
      Goes cfg host s [(s.moved p (firstQueue host x) x r).result p 0] s' ∧ AtRest s' ∧
        s'.driver = ((s.moved p (firstQueue host x) x r).setOp p .idle).driver := by
  obtain ⟨q, hq⟩ : ∃ q, q = firstQueue host x := ⟨_, rfl⟩
  obtain ⟨c, hcall⟩ : ∃ c : Queue.Call, c = ⟨x.opcode, p⟩ := ⟨_, rfl⟩
  obtain ⟨r, hnext⟩ : ∃ r, r = nextRequest (s.queues q) c := ⟨_, rfl⟩
  rw [← hq]
  have hmove := goes_moved cfg hr hx hdev hcpu hq hcall hnext
  refine ⟨r, _, hnext ▸ hcall, hmove.trans (.step left_step (by simp) (by simp) rfl),
    ⟨fun p' => ?_, fun q' => ?_⟩, rfl⟩
  · by_cases hpp : p' = p
    · subst hpp
      exact Function.update_self ..
    · refine (Function.update_of_ne hpp _ _).trans ?_
      rw [State.moved, (moveData_eq _ _ _ _).2.2.1]
      exact (Function.update_of_ne hpp _ _).trans (hr.via p')
  · by_cases hqq : q' = q
    · subst hqq
      simp only [State.setQueue, Function.update_self]
      exact ⟨rfl, (hr.calm q').cqLock, rfl, rfl⟩
    · simp only [State.setQueue, Function.update_of_ne hqq, State.setOp, State.moved,
        (moveData_eq _ _ _ _).2.2.2.1]
      exact hr.calm q'

/-! ## Whole runs -/

/-- What the atomic transfer of a call does is what the hardware does for its request. -/
theorem stepOp_transfer {tr : List (Event α n)} (hi : Inv tr s) {x : Transfer} {r : Queue.Req}
    (hx : transfer? (s.driver.op p) = some x) (hdev : q.dev = x.dev) (hr : r.call = ⟨x.opcode, p⟩)
    {op : Op α} {sched : Scheduler} {remote : ℕ → ℕ → α} {ev : List (Concurrent.Event α)}
    (hs : Concurrent.stepOp cfg p s.driver = .ok (op, sched, remote, ev)) :
    ev = [(s.moved p q x r).result p 0] ∧
      ((s.moved p q x r).setOp p .idle).driver = ⟨sched, remote, Function.update s.driver.op p op⟩ := by
  obtain ⟨opcode, type, roffset⟩ := x
  cases opcode with
  | rdmaWrite =>
    obtain ⟨hlt, page, hop⟩ := transfer?_write hx
    have hpage := hi.pages p page (by rw [hop]; rfl)
    simp only [Concurrent.stepOp, hop, ge_iff_le, not_le.mpr hlt, if_false, Except.ok.injEq,
      Prod.mk.injEq] at hs
    obtain ⟨rfl, rfl, rfl, rfl⟩ := hs
    simp [State.moved, State.pick, State.address, State.moveData, State.result, State.setOp, hr, hop,
      hdev, hpage]
  | rdmaRead =>
    obtain ⟨hlt, hop⟩ := transfer?_read hx
    simp only [Concurrent.stepOp, hop, ge_iff_le, not_le.mpr hlt, if_false, Except.ok.injEq,
      Prod.mk.injEq] at hs
    obtain ⟨rfl, rfl, rfl, rfl⟩ := hs
    simp [State.moved, State.pick, State.address, State.moveData, State.result, State.setOp, hr, hop,
      hdev]

/-- A run over the queues that shows what an atomic run shows, and ends at rest. -/
def Realized (cfg : Config) (host : Host) (n : ℕ) (memory : ℕ → ℕ → α)
    (tr' : List (Concurrent.Event α)) (t : Concurrent.State α) : Prop :=
  ∃ tr s, (system cfg host n memory).Run tr s ∧ Clean tr ∧ returns tr = tr' ∧ s.driver = t ∧ AtRest s

theorem Realized.goes {memory : ℕ → ℕ → α} {tr : List (Event α n)} {ev : List (Concurrent.Event α)}
    (h : (system cfg host n memory).Run tr s) (hclean : Clean tr) (hg : Goes cfg host s ev s')
    (hr : AtRest s') : Realized cfg host n memory (returns tr ++ ev) s'.driver := by
  obtain ⟨ev', hs, hclean', rfl⟩ := hg
  exact ⟨tr ++ ev', s', h.steps hs, hclean.append hclean', returns_append tr ev', rfl, hr⟩

/-- Every run with atomic transfers is what the swap core sees of a run over the queues. -/
theorem realized (hf : Concurrent.Fits cfg n) (hcpu : 0 < host.numcpus)
    {memory : ℕ → ℕ → α} {tr' : List (Concurrent.Event α)} {t : Concurrent.State α}
    (h : (Concurrent.system cfg n memory).Run tr' t) : Realized cfg host n memory tr' t := by
  refine h.invariant (fun t ht => ?_) ?_
  · subst ht
    exact ⟨[], _, .start ⟨memory 0, rfl⟩, ⟨by simp, by simp⟩, rfl, rfl,
      ⟨fun _ => rfl, fun _ => ⟨rfl, rfl, rfl, rfl⟩⟩⟩
  · rintro tr' t ev' t' hrun ⟨tr, s, hs, hclean, rfl, rfl, hrest⟩ hstep
    have hi := run_inv hs
    cases hstep with
    | callStore p page hp hidle =>
      have hgo : Step cfg host s [] _ := .callStore ⟨p, hp⟩ page hidle
      exact .goes hs hclean (.step hgo (by simp) (by simp) rfl) ⟨hrest.via, hrest.calm⟩
    | callLoad p hp hidle =>
      have hgo : Step cfg host s [] _ := .callLoad ⟨p, hp⟩ (s.pages p) hidle
      exact .goes hs hclean (.step hgo (by simp) (by simp) rfl) ⟨hrest.via, hrest.calm⟩
    | advance p hne hstep =>
      have hp := (Concurrent.reachable_inv hf ⟨_, hrun⟩).lt_of_running hne
      cases hx : transfer? (s.driver.op p) with
      | none =>
        have hgo : Step cfg host s _ _ := .schedule ⟨p, hp⟩ hne hx hstep
        exact .goes hs hclean (.step hgo (by simp) (by simp) (returns_returned _))
          ⟨hrest.via, hrest.calm⟩
      | some x =>
        have hserver := ((run_placed hf hrun).inside hf hx).server
        obtain ⟨r, s', hcall, hgo, hrest', hdriver⟩ :=
          goes_transfer cfg (p := ⟨p, hp⟩) hrest hx hserver hcpu
        obtain ⟨rfl, hto⟩ := stepOp_transfer (p := ⟨p, hp⟩) (q := firstQueue host x) hi hx rfl hcall hstep
        rw [← hto, ← hdriver]
        exact .goes hs hclean hgo hrest'

/-- Between calls the queues cannot be told from atomic transfers: they lead to the same
tables and remote memories, with the same returned calls for every pageid. -/
theorem same_histories (hf : Concurrent.Fits cfg n) (hcpu : 0 < host.numcpus)
    (memory remote : ℕ → ℕ → α) (sched : Scheduler) (H : Fin n → List (Concurrent.Event α)) :
    (∃ tr s, (system cfg host n memory).Run tr s ∧ Clean tr ∧
      s.driver = ⟨sched, remote, fun _ => .idle⟩ ∧ ∀ p : Fin n, historyOf p (returns tr) = H p) ↔
    ∃ tr, (Concurrent.system cfg n memory).Run tr ⟨sched, remote, fun _ => .idle⟩ ∧
      ∀ p : Fin n, historyOf p tr = H p := by
  constructor
  · rintro ⟨tr, s, hs, hclean, hdriver, hH⟩
    obtain ⟨tr', t, ht, hr⟩ := (follows cfg host n memory).run hs hclean
    have hlin := hr.linearizes (run_inv hs)
    have hidle := fun p : Fin n => hlin.idle p (by rw [hdriver])
    have hto : t = ⟨sched, remote, fun _ => .idle⟩ := by
      obtain ⟨sched', remote', op⟩ := t
      have hop : op = fun _ => .idle := by
        funext p
        by_cases hp : p < n
        · exact (hidle ⟨p, hp⟩).1
        · exact ((Concurrent.reachable_inv hf ⟨_, ht⟩).quiet p (not_lt.mp hp)).1
      rw [hop, show sched' = sched from hlin.sched.trans (by rw [hdriver]),
        show remote' = remote from hlin.remote.trans (by rw [hdriver])]
    exact ⟨tr', hto ▸ ht, fun p => (hidle p).2.trans (hH p)⟩
  · rintro ⟨tr', ht, hH⟩
    obtain ⟨tr, s, hs, hclean, rfl, hdriver, -⟩ := realized hf hcpu ht
    exact ⟨tr, s, hs, hclean, hdriver, hH⟩

/-- What the overlapping stores and the loads of their pageids return. -/
def overlapping : List (Concurrent.Event ℕ) :=
  [.stored 1 7 0, .stored 3 9 0, .stored 1 8 0, .loaded 1 0 (some 8), .loaded 3 0 (some 9)]

/-- Two overlapping stores, one of which takes the slot that the other has released, over the
queues of two servers and six processors. -/
theorem same_histories_overlapping : ∃ (tr : List (Event ℕ (remoteBufSize >>> pageShift))) (s : _),
    (system (initScheduler false) ⟨6, false⟩ (remoteBufSize >>> pageShift) fun _ _ => 0).Run tr s ∧
      Clean tr ∧ ∀ p : Fin (remoteBufSize >>> pageShift),
        historyOf p (returns tr) = historyOf p overlapping := by
  obtain ⟨-, ⟨sched, remote, op⟩, -, -, -, ht, hidle⟩ :=
    Concurrent.overlapping_run (n := remoteBufSize >>> pageShift) (by decide)
  subst hidle
  obtain ⟨tr, s, hs, hclean, -, hH⟩ := (@same_histories ℕ _ _ ⟨6, false⟩
    (Concurrent.fits_initScheduler false le_rfl) (by decide) _ remote sched _).mpr ⟨_, ht, fun _ => rfl⟩
  exact ⟨tr, s, hs, hclean, hH⟩

/-- Such a run amounts to a run with atomic transfers. -/
theorem linearizable_overlapping : ∃ (tr : List (Event ℕ (remoteBufSize >>> pageShift))) (s : _)
    (tr' : _) (t : _), returns tr = overlapping ∧ Linearizes tr s tr' t := by
  obtain ⟨-, t₀, -, -, -, ht, -⟩ :=
    Concurrent.overlapping_run (n := remoteBufSize >>> pageShift) (by decide)
  obtain ⟨tr, s, hs, hclean, hret, -⟩ := @realized ℕ _ _ ⟨6, false⟩
    (Concurrent.fits_initScheduler false le_rfl) (by decide) _ _ _ ht
  obtain ⟨tr', t, -, -, -, -, hlin, -⟩ := linearizable hs (.refl s)
    (by rwa [List.append_nil])
  exact ⟨tr, s, tr', t, hret, hlin⟩

end Multiswap.Transport
