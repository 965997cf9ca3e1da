import Mathlib.Algebra.BigOperators.Group.Finset.Basic
import Mathlib.Tactic.Abel
import Multiswap.Lib.Ownership
import Multiswap.Queue.Defs

/-!
# The end of every request

A request of a page transfer and its mapping are owned by the caller that got them,
then by the work request, and then by the completion handler, which ends both. The
helper that gets them checks the address of a variable instead of the request and
frees that address, and nobody owns what a failed post was for.
-/

namespace Multiswap.Queue

open Ledger (settle Balanced)
open Ownership (Transfers Disciplined Discipline)
open Rdma (HandlerStep WrOpcode)

/-- Request objects and mappings, each with the number of its request. -/
inductive Resource where
  | req (id : ℕ)
  | dma (id : ℕ)
  deriving DecidableEq, Repr

/-- What a kernel call of a handler ends. -/
def Req.ends (r : Req) : HandlerStep → Multiset Resource
  | .dmaUnmap => {.dma r.id}
  | .freeReq => {.req r.id}
  | .dmaSync | .setPageUptodate | .unlockPage | .decPending => 0

/-- A request with its mapping. -/
def Req.owned (r : Req) : Multiset Resource := {.req r.id, .dma r.id}

/-- What a caller is to end or to hand on. -/
def Pc.owned : Pc → Multiset Resource
  | .map _ id => {.req id}
  | .raise _ r | .post _ r => r.owned
  | .handle _ _ _ r left => (left.map r.ends).sum
  | _ => 0

variable {ι : Type}

/-- What an event acquires or releases. -/
def Event.entries : Event ι → List (Ledger.Entry Resource)
  | .allocated _ id => [.acquire (.req id)]
  | .mapped _ r => [.acquire (.dma r.id)]
  | .handled r .dmaUnmap => [.release (.dma r.id)]
  | .handled r .freeReq => [.release (.req r.id)]
  | _ => []

/-- What the posted work requests are for. -/
def State.posted (s : State ι) : Multiset Resource :=
  (s.inflight.map Req.owned).sum + (s.cq.map fun c => c.1.owned).sum

/-- What is yet to be ended, by callers, handlers and for the posted work requests. -/
def State.owned [Fintype ι] (s : State ι) : Multiset Resource := ∑ i, (s.pc i).owned + s.posted

/-- A pointer that is no request was freed, or a null request followed. -/
def Spoiled (tr : List (Event ι)) (s : State ι) : Prop :=
  (∃ i, .badFree i ∈ tr) ∨ ∃ i, s.pc i = .crashed .nullDeref

/-- The kernel refuses what a caller asks for: a request object, a mapping or a post. -/
def Event.Refusal : Event ι → Prop
  | .allocFailed _ | .mapFailed _ | .postFailed .. => True
  | .allocated .. | .mapped .. | .badFree _ | .posted .. | .handled .. | .returned .. => False

/-- The steps in which the kernel refuses something, or has mapped a page to address 0. -/
inductive Fails (s : State ι) (ev : List (Event ι)) (s' : State ι) : Prop
  -- `kmem_cache_alloc` returns a null pointer, or `ib_dma_map_page` or `ib_post_send` fails.
  | refusal {e : Event ι} : e ∈ ev → e.Refusal → Fails s ev s'
  -- The caller at `BUG_ON(qe->dma == 0)` goes on, and its page is mapped to address 0.
  | raise (i : ι) {c : Call} {r : Req} : s.pc i = .raise c r → r.dma = 0 → s'.pc i ≠ s.pc i →
      Fails s ev s'

/-- No operation is in flight: no caller runs, and nothing is posted. -/
structure Quiet (s : State ι) : Prop where
  callers : ∀ i, s.pc i = .idle ∨ ∃ f, s.pc i = .crashed f
  inflight : s.inflight = []
  cq : s.cq = []

/-- Every request and every mapping has been ended once or is still owned, no other
pointer was freed and no null request followed. When no operation is in flight, all
have been ended. -/
structure OneEnd [Fintype ι] (tr : List (Event ι)) (s : State ι) : Prop where
  freesRequests : ∀ i, .badFree i ∉ tr
  noNullDeref : ∀ i, s.pc i ≠ .crashed .nullDeref
  held : settle (tr.flatMap Event.entries) = some s.owned
  nothingLeft : Quiet s → Balanced (tr.flatMap Event.entries)

theorem req_owned_ne_zero (r : Req) : r.owned ≠ 0 := by simp [Req.owned]

/-- The kernel calls of a handler end its request and its mapping. -/
theorem done_ends (r : Req) : (r.call.op.done.map r.ends).sum = r.owned := by
  cases r.call.op with
  | rdmaWrite =>
    show {Resource.dma r.id} + (0 + ({Resource.req r.id} + 0)) = r.owned
    rw [zero_add, add_zero, add_comm]
    rfl
  | rdmaRead =>
    show 0 + ({Resource.dma r.id} + (0 + (0 + (0 + ({Resource.req r.id} + 0))))) = r.owned
    rw [zero_add, zero_add, zero_add, zero_add, add_zero, add_comm]
    rfl

/-- One kernel call of a handler. -/
theorem handled_transfers (r : Req) (k : HandlerStep) (A : Multiset Resource) :
    Transfers (Event.entries (.handled r k : Event ι)) (r.ends k + A) A := by
  cases k with
  | dmaUnmap | freeReq => exact .release _ A
  | dmaSync | setPageUptodate | unlockPage | decPending =>
    show Transfers [] (0 + A) A
    rw [zero_add]
    exact .refl A

section Moves

variable [DecidableEq ι] {s s' : State ι} {tr ev : List (Event ι)} {i : ι} {pc : Pc}

theorem afterAdd_owned (c : Call) (ret : ℤ) : (afterAdd c ret).owned = 0 :=
  afterAdd_of (P := (Pc.owned · = 0)) rfl fun _ _ => rfl

theorem afterAdd_ne (c : Call) (ret : ℤ) : afterAdd c ret ≠ .crashed .nullDeref :=
  afterAdd_of (P := (· ≠ .crashed .nullDeref)) (by simp) fun _ _ => by simp

/-- A step of one caller hands on what it and the posted work requests own. -/
theorem transfers_move [Fintype ι] {l : List (Ledger.Entry Resource)} {leak : Multiset Resource}
    (hpc : s'.pc = Function.update s.pc i pc)
    (h : Transfers l ((s.pc i).owned + s.posted) (pc.owned + s'.posted + leak)) :
    Transfers l s.owned (s'.owned + leak) := by
  have hrest : ∑ j ∈ Finset.univ.erase i, (Function.update s.pc i pc j).owned =
      ∑ j ∈ Finset.univ.erase i, (s.pc j).owned :=
    Finset.sum_congr rfl fun j hj => by rw [Function.update_of_ne (Finset.ne_of_mem_erase hj)]
  have hframe := h.frame (∑ j ∈ Finset.univ.erase i, (s.pc j).owned)
  have hs : s.owned = (s.pc i).owned + s.posted + ∑ j ∈ Finset.univ.erase i, (s.pc j).owned := by
    rw [State.owned, ← Finset.add_sum_erase _ _ (Finset.mem_univ i)]
    exact add_right_comm _ _ _
  have hs' : s'.owned + leak = pc.owned + s'.posted + leak +
      ∑ j ∈ Finset.univ.erase i, (s.pc j).owned := by
    rw [State.owned, hpc, ← Finset.add_sum_erase _ _ (Finset.mem_univ i), Function.update_self, hrest,
      add_right_comm pc.owned, add_right_comm (pc.owned + s'.posted)]
  rw [hs, hs']
  exact hframe

theorem spoiled_move (hpc : s'.pc = Function.update s.pc i pc)
    (hi : s.pc i ≠ .crashed .nullDeref) :
    Spoiled (tr ++ ev) s' ↔
      Spoiled tr s ∨ (∃ j, .badFree j ∈ ev) ∨ pc = .crashed .nullDeref := by
  have hcrashed : (∃ j, s'.pc j = .crashed .nullDeref) ↔
      (∃ j, s.pc j = .crashed .nullDeref) ∨ pc = .crashed .nullDeref := by
    rw [hpc]
    constructor
    · rintro ⟨j, hj⟩
      by_cases hji : j = i
      · subst hji
        exact .inr (by simpa using hj)
      · exact .inl ⟨j, by simpa [hji] using hj⟩
    · rintro (⟨j, hj⟩ | hcrash)
      · have hji : j ≠ i := by
          rintro rfl
          exact hi hj
        exact ⟨j, by simpa [hji] using hj⟩
      · exact ⟨i, by simpa using hcrash⟩
  simp only [Spoiled, List.mem_append, exists_or, hcrashed]
  tauto

/-- A step of one caller that is refused nothing. -/
theorem not_fails_move (hpc : s'.pc = Function.update s.pc i pc) (hev : ∀ e ∈ ev, ¬ e.Refusal)
    (hraise : ∀ c r, s.pc i = .raise c r → r.dma ≠ 0) : ¬ Fails s ev s' := by
  rintro (⟨he, hrefusal⟩ | ⟨j, hj, hzero, hmove⟩)
  · exact hev _ he hrefusal
  · by_cases hji : j = i
    · subst hji
      exact hraise _ _ hj hzero
    · rw [hpc, Function.update_of_ne hji] at hmove
      exact hmove rfl

/-! ## The discipline -/

variable [Fintype ι]

/-- A step of one caller that loses nothing. -/
theorem disciplined_of_keeps (hpc : s'.pc = Function.update s.pc i pc)
    (h : Transfers (ev.flatMap Event.entries) ((s.pc i).owned + s.posted) (pc.owned + s'.posted))
    (hi : s.pc i ≠ .crashed .nullDeref) (hnull : pc ≠ .crashed .nullDeref)
    (hraise : ∀ c r, s.pc i = .raise c r → r.dma ≠ 0)
    (hev : ∀ e ∈ ev, ¬ e.Refusal) (hfree : ∀ j, .badFree j ∉ ev) :
    Disciplined Event.entries State.owned Spoiled Fails tr s ev s' := by
  refine .of_keeps ?_ ?_ (not_fails_move hpc hev hraise)
  · have htransfers : Transfers (ev.flatMap Event.entries) s.owned (s'.owned + 0) :=
      transfers_move hpc (by rwa [add_zero])
    rwa [add_zero] at htransfers
  · rw [spoiled_move hpc hi]
    simp only [hnull, hfree, exists_false, or_false]

/-- A step of one caller that owns nothing and gets nothing. -/
theorem disciplined_of_idle (hpc : s'.pc = Function.update s.pc i pc)
    (hposted : s'.posted = s.posted) (hentries : ev.flatMap Event.entries = [])
    (hi : (s.pc i).owned = 0) (hown : pc.owned = 0)
    (hi' : s.pc i ≠ .crashed .nullDeref) (hnull : pc ≠ .crashed .nullDeref)
    (hraise : ∀ c r, s.pc i ≠ .raise c r)
    (hev : ∀ e ∈ ev, ¬ e.Refusal) (hfree : ∀ j, .badFree j ∉ ev) :
    Disciplined Event.entries State.owned Spoiled Fails tr s ev s' := by
  refine disciplined_of_keeps hpc ?_ hi' hnull ?_ hev hfree
  · rw [hi, hown, hposted, hentries]
    exact .refl _
  · intro c r hr
    exact absurd hr (hraise c r)

/-- A step of one caller that fails. -/
theorem disciplined_of_fails (leak : Multiset Resource) (hpc : s'.pc = Function.update s.pc i pc)
    (h : Transfers (ev.flatMap Event.entries) ((s.pc i).owned + s.posted)
      (pc.owned + s'.posted + leak))
    (hi : s.pc i ≠ .crashed .nullDeref)
    (hbad : ((∃ j, .badFree j ∈ ev) ∨ pc = .crashed .nullDeref) ∨ leak ≠ 0)
    (hfails : Fails s ev s') : Disciplined Event.entries State.owned Spoiled Fails tr s ev s' := by
  refine .of_fails leak (transfers_move hpc h) ?_ hfails
  rw [spoiled_move hpc hi]
  exact hbad.imp_left Or.inr

omit [DecidableEq ι] in
/-- A completed work request is still to be handled. -/
theorem completed_owned {before after : List Req} {r : Req} {status : Rdma.WcStatus}
    (hin : s.inflight = before ++ r :: after) :
    ({ s with inflight := before ++ after, cq := s.cq ++ [(r, status)] } : State ι).owned =
      s.owned := by
  refine congrArg (∑ i, (s.pc i).owned + ·) ?_
  simp only [State.posted, hin, List.map_append, List.sum_append, List.map_cons, List.map_nil,
    List.sum_cons, List.sum_nil, add_zero]
  abel

theorem step_disciplined (hs : Step s ev s') (tr : List (Event ι)) :
    Disciplined Event.entries State.owned Spoiled Fails tr s ev s' := by
  cases hs with
  | call i c hpc | pressurePass i hpc _ | pressureBug i hpc _ _ | pressurePoll i hpc _ _
  | loopPoll i hpc _ | targetLeave i hpc _ | drainLeave i hpc _ | lock i hpc _ | unlock i hpc =>
    exact disciplined_of_idle (i := i) rfl rfl rfl (by rw [hpc]; rfl) rfl (by simp [hpc]) (by simp)
      (by simp [hpc]) (by simp [Event.Refusal]) (by simp)
  | handlerDone i hpc =>
    exact disciplined_of_idle (i := i) rfl rfl rfl (by rw [hpc]; rfl) rfl (by simp [hpc]) (by simp)
      (by simp [hpc]) (by simp) (by simp)
  | @reap i c l taken r status rest hpc _ hcq =>
    have hposted : s.posted = r.owned + ((s.inflight.map Req.owned).sum +
        (rest.map fun c => c.1.owned).sum) := by
      rw [State.posted, hcq, List.map_cons, List.sum_cons, add_left_comm]
    refine disciplined_of_keeps (i := i) rfl ?_ (by simp [hpc]) (by simp) (by simp [hpc]) (by simp)
      (by simp)
    rw [hpc, hposted]
    show Transfers [] (0 + _) ((r.call.op.done.map r.ends).sum + _)
    rw [done_ends, zero_add]
    exact .refl _
  | @handle i c l taken r k left hpc =>
    refine disciplined_of_keeps (i := i) rfl ?_ (by simp [hpc]) (by simp) (by simp [hpc])
      (by simp [Event.Refusal]) (by simp)
    rw [hpc]
    show Transfers (Event.entries (.handled r k : Event ι) ++ [])
      (r.ends k + (left.map r.ends).sum + s.posted) ((left.map r.ends).sum + s.posted)
    rw [List.append_nil, add_assoc]
    exact handled_transfers r k _
  | @alloc i c hpc =>
    refine disciplined_of_keeps (i := i) rfl ?_ (by simp [hpc]) (by simp) (by simp [hpc])
      (by simp [Event.Refusal]) (by simp)
    rw [hpc]
    show Transfers [.acquire (.req s.nextReq)] (0 + s.posted) ({.req s.nextReq} + s.posted)
    rw [zero_add]
    exact .acquire _ _
  | @allocFail i c hpc =>
    refine disciplined_of_fails (i := i) 0 rfl ?_ (by simp [hpc]) (.inl (.inr rfl))
      (.refusal (List.mem_singleton_self _) trivial)
    rw [hpc, add_zero]
    exact .refl _
  | @map i c id dma hpc =>
    refine disciplined_of_keeps (i := i) rfl ?_ (by simp [hpc]) (by simp) (by simp [hpc])
      (by simp [Event.Refusal]) (by simp)
    rw [hpc]
    show Transfers [.acquire (.dma id)] ({.req id} + s.posted) ({.req id, .dma id} + s.posted)
    rw [Multiset.insert_eq_cons, ← Multiset.singleton_add, add_assoc, add_left_comm]
    exact .acquire _ _
  | @mapFail i c id hpc =>
    refine disciplined_of_fails (i := i) {.req id} rfl ?_ (by simp [hpc])
      (.inl (.inl ⟨i, by simp⟩)) (.refusal (List.mem_cons_self ..) trivial)
    rw [hpc, afterAdd_owned]
    exact .giveUp {.req id} s.posted
  | @raiseBug i c r hpc hzero =>
    refine disciplined_of_fails (i := i) r.owned rfl ?_ (by simp [hpc])
      (.inr (req_owned_ne_zero r)) (.raise i hpc hzero (by simp [State.goto, hpc]))
    rw [hpc]
    exact .giveUp r.owned s.posted
  | @raise i c r hpc hdma =>
    refine disciplined_of_keeps (i := i) rfl ?_ (by simp [hpc]) (by simp) (by simpa [hpc]) (by simp)
      (by simp)
    rw [hpc]
    exact .refl _
  | @post i c r hpc =>
    refine disciplined_of_keeps (i := i) rfl ?_ (by simp [hpc]) (afterAdd_ne c 0) (by simp [hpc])
      (by simp [Event.Refusal]) (by simp)
    have hposted : ({ s.goto i (afterAdd c 0) with inflight := s.inflight ++ [r] } : State ι).posted =
        s.posted + r.owned := by
      simp only [State.posted, State.goto, List.map_append, List.sum_append, List.map_cons,
        List.map_nil, List.sum_cons, List.sum_nil, add_zero]
      exact add_right_comm _ _ _
    rw [hpc, afterAdd_owned, hposted, zero_add, add_comm]
    exact .refl _
  | @postFail i c r ret hpc _ =>
    refine disciplined_of_fails (i := i) r.owned rfl ?_ (by simp [hpc])
      (.inr (req_owned_ne_zero r)) (.refusal (List.mem_singleton_self _) trivial)
    rw [hpc, afterAdd_owned]
    exact .giveUp r.owned s.posted
  | @complete before after r status hin =>
    refine .of_keeps ?_ ?_ ?_
    · rw [completed_owned hin]
      exact .refl _
    · rw [List.append_nil]
      exact Iff.rfl
    · rintro (⟨he, -⟩ | ⟨j, -, -, hmove⟩)
      · cases he
      · exact hmove rfl

theorem discipline :
    Discipline (system ι) Event.entries State.owned Spoiled (Fails (ι := ι)) where
  init s hs := by
    cases hs
    refine ⟨by simp [State.owned, State.posted, State.initial, Pc.owned], ?_⟩
    rintro (⟨i, hi⟩ | ⟨i, hi⟩)
    · cases hi
    · cases hi
  step tr s ev s' hs := step_disciplined hs tr

omit [DecidableEq ι] in
theorem Quiet.owned (h : Quiet s) : s.owned = 0 := by
  have hpcs : ∀ i ∈ Finset.univ, (s.pc i).owned = 0 := by
    intro i _
    obtain hi | ⟨f, hi⟩ := h.callers i
    all_goals
      rw [hi]
      rfl
  rw [State.owned, Finset.sum_eq_zero hpcs, State.posted, h.inflight, h.cq]
  rfl

omit [DecidableEq ι] in
theorem oneEnd_iff_accounted :
    OneEnd tr s ↔ Ownership.Accounted Event.entries State.owned Spoiled tr s := by
  constructor
  · rintro ⟨hfree, hnull, hheld, -⟩
    refine ⟨?_, hheld⟩
    rintro (⟨i, hi⟩ | ⟨i, hi⟩)
    · exact hfree i hi
    · exact hnull i hi
  · intro h
    refine ⟨fun i hi => h.unspoiled (.inl ⟨i, hi⟩), fun i hi => h.unspoiled (.inr ⟨i, hi⟩), h.held, ?_⟩
    intro hquiet
    exact h.balanced hquiet.owned

/-- The runs of page transfers in which every request and every mapping has one end are
those in which nothing fails. -/
theorem oneEnd_iff : (system ι).Run tr s ∧ OneEnd tr s ↔
    (system ι).RunBy (fun s ev s' => ¬ Fails s ev s') tr s := by
  rw [oneEnd_iff_accounted]
  exact discipline.accounted_iff

end Moves

end Multiswap.Queue
