import Multiswap.Queue.Requests

/-!
# Receiving the memory region

`sswap_rdma_recv_remotemr` for one server, call after call, one atomic step at a
time. Its request goes back to `req_cache` on its only way out after the post, but
its mapping is undone by the completion handler alone, and only if the completion
has no error.
-/

namespace Multiswap.Receive

open Ledger (settle Balanced)
open Ownership (Transfers Disciplined Discipline)
open Queue (Resource)
open Rdma (WcStatus enomem)

/-- The kernel calls of `sswap_rdma_recv_remotemr_done` that end something. -/
inductive HandlerStep where
  | dmaUnmap
  | completeAll
  deriving DecidableEq, Repr

/-- `sswap_rdma_recv_remotemr_done`. -/
def recvRemotemrDone : WcStatus → List HandlerStep
  | .success => [.dmaUnmap, .completeAll]
  | .error _ => []

/-- `struct rdma_req`; `id` tells the request objects apart. -/
structure Req where
  id : ℕ
  dma : ℕ
  deriving DecidableEq, Repr

/-- Where the caller stands. -/
inductive Pc where
  | idle
  -- At `kmem_cache_alloc`.
  | alloc
  -- At `ib_dma_map_single`.
  | map (id : ℕ)
  -- At `ib_post_recv`.
  | post (r : Req)
  -- At the head of the loop of `sswap_rdma_wait_completion`.
  | wait (r : Req)
  -- In its `ib_process_cq_direct`.
  | poll (r : Req)
  -- In the completion handler of `done`, with these kernel calls left.
  | handle (r done : Req) (left : List HandlerStep)
  -- At `out_free_qe`.
  | free (r : Req) (ret : ℤ)
  -- Stopped by the kernel.
  | crashed (f : Fault)
  deriving DecidableEq, Repr

/-- What a step shows. -/
inductive Event where
  | allocated (id : ℕ)
  -- `kmem_cache_alloc` returned a null pointer.
  | allocFailed
  | mapped (r : Req)
  -- `ib_dma_map_single` failed.
  | mapFailed
  -- `kmem_cache_free` with the address of the variable that points to the request.
  | badFree
  | posted (r : Req)
  -- `ib_post_recv` returned an error.
  | postFailed (r : Req) (ret : ℤ)
  -- A poll has taken the completion of `r`.
  | reaped (r : Req) (status : WcStatus)
  -- The completion handler made this kernel call for the request.
  | handled (r : Req) (k : HandlerStep)
  -- `kmem_cache_free` with the request.
  | freed (r : Req)
  | returned (ret : ℤ)
  deriving DecidableEq, Repr

/-- The caller, and the receive queue of queue 0. -/
structure State where
  pc : Pc
  -- Accepted by `ib_post_recv` and not completed by the hardware.
  inflight : List Req
  -- Completed and not reaped by a poll.
  cq : List (Req × WcStatus)
  -- `qe->done` of every request.
  done : ℕ → Bool
  nextReq : ℕ

/-- The completion that a kernel call of the handler completes. -/
def completes (done : ℕ → Bool) (r : Req) : HandlerStep → ℕ → Bool
  | .dmaUnmap => done
  | .completeAll => Function.update done r.id true

/-- The atomic steps of the caller and of the hardware. -/
inductive Step : State → List Event → State → Prop
  | call {s : State} : s.pc = .idle → Step s [] { s with pc := .alloc }
  | alloc {s : State} : s.pc = .alloc →
      Step s [.allocated s.nextReq]
        { s with
          pc := .map s.nextReq, done := Function.update s.done s.nextReq false
          nextReq := s.nextReq + 1 }
  | allocFail {s : State} : s.pc = .alloc →
      Step s [.allocFailed] { s with pc := .crashed .nullDeref }
  | map {s : State} {id : ℕ} (dma : ℕ) : s.pc = .map id →
      Step s [.mapped ⟨id, dma⟩] { s with pc := .post ⟨id, dma⟩ }
  | mapFail {s : State} {id : ℕ} : s.pc = .map id →
      Step s [.mapFailed, .badFree, .returned (-enomem)] { s with pc := .idle }
  | post {s : State} {r : Req} : s.pc = .post r →
      Step s [.posted r] { s with pc := .wait r, inflight := s.inflight ++ [r] }
  | postFail {s : State} {r : Req} (ret : ℤ) : s.pc = .post r → ret ≠ 0 →
      Step s [.postFailed r ret] { s with pc := .free r ret }
  | waitLeave {s : State} {r : Req} : s.pc = .wait r → s.done r.id = true →
      Step s [] { s with pc := .free r 0 }
  | waitPoll {s : State} {r : Req} : s.pc = .wait r → s.done r.id = false →
      Step s [] { s with pc := .poll r }
  | reap {s : State} {r c : Req} {status : WcStatus} {rest : List (Req × WcStatus)} :
      s.pc = .poll r → s.cq = (c, status) :: rest →
      Step s [.reaped c status] { s with pc := .handle r c (recvRemotemrDone status), cq := rest }
  | pollEmpty {s : State} {r : Req} : s.pc = .poll r → s.cq = [] → Step s [] { s with pc := .wait r }
  | handle {s : State} {r c : Req} {k : HandlerStep} {left : List HandlerStep} :
      s.pc = .handle r c (k :: left) →
      Step s [.handled c k] { s with pc := .handle r c left, done := completes s.done c k }
  | handlerDone {s : State} {r c : Req} : s.pc = .handle r c [] → Step s [] { s with pc := .wait r }
  | free {s : State} {r : Req} {ret : ℤ} : s.pc = .free r ret →
      Step s [.freed r, .returned ret] { s with pc := .idle }
  | complete {s : State} {before after : List Req} {r : Req} (status : WcStatus) :
      s.inflight = before ++ r :: after →
      Step s [] { s with inflight := before ++ after, cq := s.cq ++ [(r, status)] }

/-- Before the first call. -/
def State.initial : State := ⟨.idle, [], [], fun _ => false, 0⟩

/-- The calls of `sswap_rdma_recv_remotemr` for one server. -/
def system : Transition.System State Event where
  init s := s = State.initial
  step := Step

/-! ## Who owns what -/

/-- What a kernel call of the handler ends. -/
def Req.ends (r : Req) : HandlerStep → Multiset Resource
  | .dmaUnmap => {.dma r.id}
  | .completeAll => 0

/-- What the caller is to end or to hand on. -/
def Pc.owned : Pc → Multiset Resource
  | .idle | .alloc | .crashed _ => 0
  | .map id => {.req id}
  | .post r => {.req r.id, .dma r.id}
  | .wait r | .poll r | .free r _ => {.req r.id}
  | .handle r c left => {.req r.id} + (left.map c.ends).sum

/-- What an event acquires or releases. -/
def Event.entries : Event → List (Ledger.Entry Resource)
  | .allocated id => [.acquire (.req id)]
  | .mapped r => [.acquire (.dma r.id)]
  | .handled r .dmaUnmap => [.release (.dma r.id)]
  | .freed r => [.release (.req r.id)]
  | _ => []

/-- The mappings of the posted requests. -/
def State.posted (s : State) : Multiset Resource :=
  (s.inflight.map fun r => ({.dma r.id} : Multiset Resource)).sum +
    (s.cq.map fun c => ({.dma c.1.id} : Multiset Resource)).sum

/-- What is yet to be ended. -/
def State.owned (s : State) : Multiset Resource := s.pc.owned + s.posted

/-- A pointer that is no request was freed, or a null request followed. -/
def Spoiled (tr : List Event) (s : State) : Prop := .badFree ∈ tr ∨ s.pc = .crashed .nullDeref

/-- The kernel refuses what the caller asks for: a request object, a mapping or a post. Or
a completion has an error. -/
def Event.Failure : Event → Prop
  | .allocFailed | .mapFailed | .postFailed .. | .reaped _ (.error _) => True
  | .allocated _ | .mapped _ | .badFree | .posted _ | .reaped _ .success | .handled .. | .freed _
  | .returned _ => False

/-- The steps in which the kernel refuses something, or a completion has an error. -/
def Fails (_ : State) (ev : List Event) (_ : State) : Prop := ∃ e ∈ ev, e.Failure

/-- No operation is in flight. -/
structure Quiet (s : State) : Prop where
  caller : s.pc = .idle ∨ ∃ f, s.pc = .crashed f
  inflight : s.inflight = []
  cq : s.cq = []

/-- Every request and every mapping has been ended once or is still owned, no other
pointer was freed and no null request followed. When no operation is in flight, all
have been ended. -/
structure OneEnd (tr : List Event) (s : State) : Prop where
  freesRequests : .badFree ∉ tr
  noNullDeref : s.pc ≠ .crashed .nullDeref
  held : settle (tr.flatMap Event.entries) = some s.owned
  nothingLeft : Quiet s → Balanced (tr.flatMap Event.entries)

section Steps

variable {s s' : State} {tr ev : List Event}

/-- A step that loses nothing. -/
theorem disciplined_of_keeps (h : Transfers (ev.flatMap Event.entries) s.owned s'.owned)
    (hs : s.pc ≠ .crashed .nullDeref) (hnull : s'.pc ≠ .crashed .nullDeref)
    (hev : ∀ e ∈ ev, ¬ e.Failure) (hfree : .badFree ∉ ev) :
    Disciplined Event.entries State.owned Spoiled Fails tr s ev s' := by
  refine .of_keeps h ?_ ?_
  · simp only [Spoiled, List.mem_append, hfree, hs, hnull, or_false]
  · rintro ⟨e, he, hfail⟩
    exact hev e he hfail

/-- One kernel call of the handler. -/
theorem handled_transfers (r : Req) (k : HandlerStep) (A : Multiset Resource) :
    Transfers (Event.entries (.handled r k)) (r.ends k + A) A := by
  cases k with
  | dmaUnmap => exact .release _ A
  | completeAll =>
    show Transfers [] (0 + A) A
    rw [zero_add]
    exact .refl A

/-- A completed work request is still to be handled. -/
theorem completed_owned {before after : List Req} {r : Req} {status : WcStatus}
    (hin : s.inflight = before ++ r :: after) :
    ({ s with inflight := before ++ after, cq := s.cq ++ [(r, status)] } : State).owned =
      s.owned := by
  refine congrArg (s.pc.owned + ·) ?_
  simp only [State.posted, hin, List.map_append, List.sum_append, List.map_cons, List.map_nil,
    List.sum_cons, List.sum_nil, add_zero]
  abel

theorem step_disciplined (hs : Step s ev s') (tr : List Event) :
    Disciplined Event.entries State.owned Spoiled Fails tr s ev s' := by
  cases hs with
  | call hpc | waitLeave hpc _ | waitPoll hpc _ | pollEmpty hpc _ =>
    refine disciplined_of_keeps ?_ (by simp [hpc]) (by simp) (by simp [Event.Failure]) (by simp)
    rw [State.owned, hpc]
    exact .refl _
  | @handlerDone r c hpc =>
    refine disciplined_of_keeps ?_ (by simp [hpc]) (by simp) (by simp [Event.Failure]) (by simp)
    rw [State.owned, hpc]
    exact .refl _
  | @alloc hpc =>
    refine disciplined_of_keeps ?_ (by simp [hpc]) (by simp) (by simp [Event.Failure]) (by simp)
    rw [State.owned, hpc]
    show Transfers [.acquire (.req s.nextReq)] (0 + s.posted) ({.req s.nextReq} + s.posted)
    rw [zero_add]
    exact .acquire _ _
  | allocFail hpc =>
    refine .of_fails 0 ?_ (.inl (.inr rfl)) ⟨_, List.mem_singleton_self _, trivial⟩
    rw [State.owned, hpc, add_zero]
    exact .refl _
  | @map id dma hpc =>
    refine disciplined_of_keeps ?_ (by simp [hpc]) (by simp) (by simp [Event.Failure]) (by simp)
    rw [State.owned, hpc]
    show Transfers [.acquire (.dma id)] ({.req id} + s.posted) ({.req id, .dma id} + s.posted)
    rw [Multiset.insert_eq_cons, ← Multiset.singleton_add, add_assoc, add_left_comm]
    exact .acquire _ _
  | @mapFail id hpc =>
    refine .of_fails {.req id} ?_ (.inl (.inl (by simp))) ⟨_, List.mem_cons_self .., trivial⟩
    rw [State.owned, hpc]
    exact .giveUp {.req id} s.posted
  | @post r hpc =>
    refine disciplined_of_keeps ?_ (by simp [hpc]) (by simp) (by simp [Event.Failure]) (by simp)
    have hposted : ({ s with pc := .wait r, inflight := s.inflight ++ [r] } : State).posted =
        {.dma r.id} + s.posted := by
      simp only [State.posted, List.map_append, List.sum_append, List.map_cons, List.map_nil,
        List.sum_cons, List.sum_nil, add_zero]
      abel
    rw [State.owned, State.owned, hpc, hposted]
    show Transfers [] ({.req r.id, .dma r.id} + s.posted) ({.req r.id} + ({.dma r.id} + s.posted))
    rw [← add_assoc]
    exact .refl _
  | @postFail r ret hpc _ =>
    refine .of_fails {.dma r.id} ?_ (.inr (Multiset.singleton_ne_zero _))
      ⟨_, List.mem_singleton_self _, trivial⟩
    rw [State.owned, hpc]
    show Transfers [] ({.req r.id, .dma r.id} + s.posted) ({.req r.id} + s.posted + {.dma r.id})
    rw [add_right_comm]
    exact .refl _
  | @reap r c status rest hpc hcq =>
    have hposted : s.posted = {.dma c.id} + ((s.inflight.map fun r => {.dma r.id}).sum +
        (rest.map fun c => {.dma c.1.id}).sum) := by
      rw [State.posted, hcq, List.map_cons, List.sum_cons, add_left_comm]
    cases status with
    | success =>
      refine disciplined_of_keeps ?_ (by simp [hpc]) (by simp) (by simp [Event.Failure]) (by simp)
      rw [State.owned, hpc, hposted, ← add_assoc]
      exact .refl _
    | error code =>
      -- The handler of a bad completion does nothing, so its mapping is lost.
      refine .of_fails {.dma c.id} ?_ (.inr (Multiset.singleton_ne_zero _))
        ⟨_, List.mem_singleton_self _, trivial⟩
      rw [State.owned, hpc, hposted, add_left_comm, add_comm]
      exact .refl _
  | @handle r c k left hpc =>
    refine disciplined_of_keeps ?_ (by simp [hpc]) (by simp) (by simp [Event.Failure]) (by simp)
    rw [State.owned, hpc]
    show Transfers (Event.entries (.handled c k) ++ [])
      ({.req r.id} + (c.ends k + (left.map c.ends).sum) + s.posted)
      ({.req r.id} + (left.map c.ends).sum + s.posted)
    rw [List.append_nil, add_left_comm, add_assoc]
    exact handled_transfers c k _
  | @free r ret hpc =>
    refine disciplined_of_keeps ?_ (by simp [hpc]) (by simp) (by simp [Event.Failure]) (by simp)
    rw [State.owned, hpc]
    show Transfers [.release (.req r.id)] ({.req r.id} + s.posted) (0 + s.posted)
    rw [zero_add]
    exact .release _ _
  | @complete before after r status hin =>
    refine .of_keeps ?_ ?_ ?_
    · rw [completed_owned hin]
      exact .refl _
    · rw [List.append_nil]
      exact Iff.rfl
    · rintro ⟨e, he, -⟩
      cases he

theorem discipline : Discipline system Event.entries State.owned Spoiled Fails where
  init s hs := by
    cases hs
    refine ⟨rfl, ?_⟩
    rintro (hbad | hpc)
    · cases hbad
    · cases hpc
  step tr s ev s' hs := step_disciplined hs tr

theorem Quiet.owned (h : Quiet s) : s.owned = 0 := by
  have hpc : s.pc.owned = 0 := by
    obtain hpc | ⟨f, hpc⟩ := h.caller
    all_goals
      rw [hpc]
      rfl
  rw [State.owned, hpc, State.posted, h.inflight, h.cq]
  rfl

theorem oneEnd_iff_accounted :
    OneEnd tr s ↔ Ownership.Accounted Event.entries State.owned Spoiled tr s := by
  constructor
  · rintro ⟨hfree, hnull, hheld, -⟩
    exact ⟨fun hbad => hbad.elim hfree hnull, hheld⟩
  · intro h
    refine ⟨fun hbad => h.unspoiled (.inl hbad), fun hpc => h.unspoiled (.inr hpc), h.held, ?_⟩
    intro hquiet
    exact h.balanced hquiet.owned

/-- The calls after which the request and its mapping have one end are those in which
nothing fails. -/
theorem oneEnd_iff : system.Run tr s ∧ OneEnd tr s ↔
    system.RunBy (fun s ev s' => ¬ Fails s ev s') tr s := by
  rw [oneEnd_iff_accounted]
  exact discipline.accounted_iff

end Steps

/-! ## The three operations -/

/-- Every request and every mapping of `sswap_rdma_write`, `sswap_rdma_read_sync` and
`sswap_rdma_recv_remotemr` has one end in exactly those runs in which nothing fails. -/
theorem requests_end_once_iff (ι : Type) [DecidableEq ι] [Fintype ι] (tr : List (Queue.Event ι))
    (s : Queue.State ι) (trReceive : List Event) (sReceive : State) :
    ((Queue.system ι).Run tr s ∧ Queue.OneEnd tr s ↔
        (Queue.system ι).RunBy (fun s ev s' => ¬ Queue.Fails s ev s') tr s) ∧
      (system.Run trReceive sReceive ∧ OneEnd trReceive sReceive ↔
        system.RunBy (fun s ev s' => ¬ Fails s ev s') trReceive sReceive) := by
  constructor
  · exact Queue.oneEnd_iff
  · exact oneEnd_iff

/-- Without memory for its request, a write follows a null pointer. A receive that
cannot be posted returns with its buffer mapped. -/
theorem requests_end_once_counterexample :
    (∃ tr s, (Queue.system Unit).Run tr s ∧ s.pc () = .crashed .nullDeref) ∧
      (∃ tr s, system.Run tr s ∧ Quiet s ∧ settle (tr.flatMap Event.entries) = some {.dma 0}) ∧
      ¬ ((∀ tr (s : Queue.State Unit), (Queue.system Unit).Run tr s → Queue.OneEnd tr s) ∧
        ∀ tr s, system.Run tr s → OneEnd tr s) := by
  have hcalled := (Transition.System.Run.start (M := Queue.system Unit) rfl).step
    (.call () ⟨.rdmaWrite, 0⟩ rfl)
  have hwrite := (hcalled.step (.pressurePass () rfl (by decide))).step (.allocFail () rfl)
  have halloc := ((Transition.System.Run.start (M := system) rfl).step (.call rfl)).step (.alloc rfl)
  have hpostFail := (halloc.step (.map 4096 rfl)).step (.postFail (-12) rfl (by decide))
  have hreceive := hpostFail.step (.free rfl)
  refine ⟨⟨_, _, hwrite, rfl⟩, ⟨_, _, hreceive, ⟨.inl rfl, rfl, rfl⟩, by decide⟩, ?_⟩
  rintro ⟨hone, -⟩
  exact (hone _ _ hwrite).noNullDeref () rfl

end Multiswap.Receive
