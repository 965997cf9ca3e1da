import Multiswap.Transport.Realization

/-!
# Round trips, whatever fails elsewhere

What a load delivers depends on the transfers of its own pageid only: other mappings, posts
and work requests may fail in any way.
-/

namespace Multiswap.Transport

open Concurrent (Op lastStored)
open Queue (Internal)
open Rdma (Host WcStatus)

variable {α : Type} {n : ℕ} {cfg : Config} {host : Host} {memory : ℕ → ℕ → α}
  {tr ev : List (Event α n)} {s s' : State α n} {p : Fin n} {q : QueueId}

/-- The status with which the hardware has completed the last of these work requests. -/
def lastStatus (P : Queue.Req → Prop) [DecidablePred P] (tr : List (Event α n)) : Option WcStatus :=
  tr.foldl (fun last e => match e with
    | .completed _ r status => if P r then some status else last
    | _ => last) none

/-- The last of these work requests to complete has completed with an error. -/
def LastFailed (P : Queue.Req → Prop) [DecidablePred P] (tr : List (Event α n)) : Prop :=
  ∃ code, lastStatus P tr = some (.error code)

/-- The request is for a page. -/
def OfPage (p : ℕ) (r : Queue.Req) : Prop := r.call.page = p

/-- The request writes a page. -/
def WritesPage (p : ℕ) (r : Queue.Req) : Prop := r.call.page = p ∧ r.call.op = .rdmaWrite

instance (p : ℕ) : DecidablePred (OfPage p) := fun r => inferInstanceAs (Decidable (r.call.page = p))

instance (p : ℕ) : DecidablePred (WritesPage p) := fun _ => inferInstanceAs (Decidable (_ ∧ _))

section Trace

variable (P : Queue.Req → Prop) [DecidablePred P]

theorem lastStatus_completed (tr : List (Event α n)) (q : QueueId) (r : Queue.Req)
    (status : WcStatus) :
    lastStatus P (tr ++ [.completed q r status]) = if P r then some status else lastStatus P tr := by
  simp [lastStatus]

theorem lastStatus_other (hev : ∀ q r status, .completed q r status ∈ ev → ¬ P r) :
    lastStatus P (tr ++ ev) = lastStatus P tr := by
  induction ev using List.reverseRecOn with
  | nil => rw [List.append_nil]
  | append_singleton ev e ih =>
    rw [← List.append_assoc, ← ih fun q r status hmem => hev q r status (List.mem_append_left _ hmem)]
    cases e with
    | completed q r status => rw [lastStatus_completed, if_neg (hev q r status (by simp))]
    | onQueue | returned => simp [lastStatus]

theorem lastFailed_completed (tr : List (Event α n)) (q : QueueId) {r : Queue.Req}
    (status : WcStatus) (hr : P r) :
    LastFailed P (tr ++ [.completed q r status]) ↔ ∃ code, status = .error code := by
  rw [LastFailed, lastStatus_completed, if_pos hr]
  simp only [Option.some.injEq]

theorem lastFailed_other (hev : ∀ q r status, .completed q r status ∈ ev → ¬ P r) :
    LastFailed P (tr ++ ev) ↔ LastFailed P tr := by
  rw [LastFailed, lastStatus_other P hev]
  rfl

theorem Clean.not_lastFailed (h : Clean tr) : ¬ LastFailed P tr := by
  induction tr using List.reverseRecOn with
  | nil => rintro ⟨code, hlast⟩; cases hlast
  | append_singleton tr e ih =>
    have hrest := ih h.append_left
    cases e with
    | completed q r status =>
      by_cases hr : P r
      · rw [lastFailed_completed P tr q status hr]
        rintro ⟨code, rfl⟩
        exact h.moved q r code (by simp)
      · rwa [lastFailed_other P fun q' r' status' hmem => by
          cases List.mem_singleton.mp hmem
          exact hr]
    | onQueue | returned => rwa [lastFailed_other P (by simp)]

end Trace

/-- What was last stored at a pageid does not change with the events of others. -/
theorem lastStored_append (p : ℕ) (a : List (Concurrent.Event α)) {b : List (Concurrent.Event α)}
    (hb : ∀ e ∈ b, pageidOf e ≠ p) : lastStored p (a ++ b) = lastStored p a := by
  induction b using List.reverseRecOn with
  | nil => rw [List.append_nil]
  | append_singleton b e ih =>
    have hrest := ih fun e' he' => hb e' (List.mem_append_left _ he')
    have he := hb e (by simp)
    rw [← List.append_assoc]
    cases e with
    | stored q page ret =>
      have hq : q ≠ p := he
      rw [Concurrent.lastStored_stored, if_neg hq, hrest]
    | loaded q ret d => rw [Concurrent.lastStored_loaded, hrest]

/-- What is kept for a pageid: the last stored contents are in its cell unless the hardware
reported that it did not write them, and a load has read its cell unless the hardware
reported that it did not. -/
structure Kept (tr : List (Event α n)) (s : State α n) (p : Fin n) : Prop where
  stored : (s.driver.op p).storing = false → ∀ page, lastStored p (returns tr) = some page →
    ¬ LastFailed (WritesPage p) tr →
      ∃ t x, s.driver.sched.mappingOf p = some (t, x) ∧ s.driver.remote t (x * pageSize) = page
  written : s.Arrived p → ∀ page type roffset, s.driver.op p = .storeWrite page type roffset →
    ¬ LastFailed (WritesPage p) tr → s.driver.remote type roffset = page
  read : s.Arrived p → ∀ type roffset, s.driver.op p = .loadRead type roffset →
    ¬ LastFailed (OfPage p) tr → ∀ t x, s.driver.sched.mappingOf p = some (t, x) →
      s.pages p = s.driver.remote t (x * pageSize)

/-- A call that stores nothing owns what its mapping names. -/
theorem settled_of_storing {op : Op α} (h : op.storing = false) (p : ℕ) :
    op.released = false ∧ op.reserved p = none := by
  cases op <;> first | exact ⟨rfl, rfl⟩ | cases h

/-- A step that changes nothing of what is kept for the pageid. -/
theorem Kept.frame (hk : Kept tr s p) (hp : Placed cfg n s.driver)
    (hop : s'.driver.op p = s.driver.op p)
    (hmap : s'.driver.sched.mappingOf p = s.driver.sched.mappingOf p)
    (hpage : s'.pages p = s.pages p) (harrived : s'.Arrived p ↔ s.Arrived p)
    (hcell : ∀ t x, s.driver.held p = some (t, x) →
      s'.driver.remote t (x * pageSize) = s.driver.remote t (x * pageSize))
    (hret : ∀ e ∈ returns ev, pageidOf e ≠ p)
    (hstatus : ∀ q r status, .completed q r status ∈ ev → ¬ OfPage p r) :
    Kept (tr ++ ev) s' p := by
  have hlast : lastStored p (returns (tr ++ ev)) = lastStored p (returns tr) := by
    rw [returns_append, lastStored_append _ _ hret]
  have hwrites : LastFailed (WritesPage p) (tr ++ ev) ↔ LastFailed (WritesPage p) tr :=
    lastFailed_other _ fun q r status hmem hw => hstatus q r status hmem hw.1
  have hof : LastFailed (OfPage p) (tr ++ ev) ↔ LastFailed (OfPage p) tr :=
    lastFailed_other _ hstatus
  have hok := hp.inv.ops p
  refine ⟨fun hstoring page hpage' hmoved => ?_, fun ha page type roffset hw hmoved => ?_,
    fun ha type roffset hl hmoved t x hm => ?_⟩
  · rw [hop] at hstoring
    rw [hlast] at hpage'
    rw [hwrites] at hmoved
    obtain ⟨t, x, hm, hrem⟩ := hk.stored hstoring page hpage' hmoved
    obtain ⟨hreleased, hreserved⟩ := settled_of_storing hstoring p
    exact ⟨t, x, hmap.trans hm, by rw [hcell t x (held_of_mapping hm hreleased hreserved), hrem]⟩
  · rw [hop] at hw
    rw [hwrites] at hmoved
    have hrem := hk.written (harrived.mp ha) page type roffset hw hmoved
    rw [hw] at hok
    obtain ⟨x, hm, rfl⟩ := hok
    rw [hcell type x (held_of_mapping hm (by rw [hw]; rfl) (by rw [hw]; rfl)), hrem]
  · rw [hop] at hl
    rw [hof] at hmoved
    rw [hmap] at hm
    have hrem := hk.read (harrived.mp ha) type roffset hl hmoved t x hm
    rw [hcell t x (held_of_mapping hm (by rw [hl]; rfl) (by rw [hl]; rfl)), hpage, hrem]

/-- What a step before the transfer does. -/
theorem move_silent {t t' : Concurrent.State α} {ev : List (Concurrent.Event α)} {p₀ : ℕ}
    (hp : Placed cfg n t) (hf : Concurrent.Fits cfg n) (hm : Concurrent.Move cfg t p₀ ev t')
    (hnone : transfer? (t.op p₀) = none) :
    ev = [] ∧ t'.remote = t.remote ∧
      (∀ p : ℕ, p ≠ p₀ → t'.sched.mappingOf p = t.sched.mappingOf p) ∧
      ((t'.op p₀).storing = false → (t.op p₀).storing = false ∧
        t'.sched.mappingOf p₀ = t.sched.mappingOf p₀) := by
  cases hm with
  | found hop | enter hop | skip hop | take hop | release hop =>
    refine ⟨rfl, rfl, fun _ _ => rfl, fun hs => ?_⟩
    simp [Op.storing] at hs
  | record hop =>
    refine ⟨rfl, rfl, fun p hpp => by rw [Scheduler.xaStore_mappingOf, if_neg hpp], fun hs => ?_⟩
    simp [Op.storing] at hs
  | lookup hop => exact ⟨rfl, rfl, fun _ _ => rfl, fun _ => ⟨by rw [hop]; rfl, rfl⟩⟩
  | @write page type slot hop hm =>
    have hslot : slot < 2097152 :=
      hp.inv.held_small hf (held_of_mapping hm (by rw [hop]; rfl) (by rw [hop]; rfl))
    have hlt : slot * pageSize < remoteBufSize := by
      simp only [pageSize_eq, remoteBufSize_eq]
      omega
    simp only [hop, transfer?, hlt, if_true, reduceCtorEq] at hnone
  | @read type roffset hop =>
    have hok := hp.inv.ops p₀
    rw [hop] at hok
    simp only [hop, transfer?, hok.1, if_true, reduceCtorEq] at hnone

/-- The call of the pageid starts, or goes on to its transfer. -/
theorem Kept.silent (hk : Kept tr s p) (harrived : ¬ s'.Arrived p)
    (hret : returns ev = []) (hev : ∀ q r status, .completed q r status ∉ ev)
    (hremote : s'.driver.remote = s.driver.remote)
    (hop : (s'.driver.op p).storing = false → (s.driver.op p).storing = false ∧
      s'.driver.sched.mappingOf p = s.driver.sched.mappingOf p) : Kept (tr ++ ev) s' p := by
  refine ⟨fun hstoring page hpage hmoved => ?_, fun ha => absurd ha harrived,
    fun ha => absurd ha harrived⟩
  obtain ⟨hstoring', hmap⟩ := hop hstoring
  rw [returns_append, hret, List.append_nil] at hpage
  rw [lastFailed_other _ fun q r status hmem => absurd hmem (hev q r status)] at hmoved
  rw [hmap, hremote]
  exact hk.stored hstoring' page hpage hmoved

section Steps

variable {before after : List Queue.Req} {r : Queue.Req}

/-- A read changes nothing in the remote memory. -/
theorem moveData_remote (s : State α n) (q : QueueId) (status : WcStatus)
    (hread : r.call.op = .rdmaRead) : (s.moveData q r status).driver.remote = s.driver.remote := by
  cases status with
  | error code => rfl
  | success => simp only [State.moveData, hread]

/-- The hardware completes the work request of the pageid. -/
theorem Kept.complete (hk : Kept tr s p) (hi : Inv tr s) (hp : Placed cfg n s.driver)
    (status : WcStatus) (hx : transfer? (s.driver.op p) = some ⟨r.call.op, q.dev, s.roffset q r⟩)
    (hpage : r.call.page = p) :
    Kept (tr ++ [.completed q r status]) (s.completed q before after r status) p := by
  obtain ⟨hop, hsched, -⟩ := moveData_eq s q r status
  have hop' : (s.completed q before after r status).driver.op p = s.driver.op p := congrFun hop p
  have hret : returns (tr ++ [.completed q r status]) = returns tr := by
    rw [returns_append]
    exact List.append_nil _
  cases hopc : r.call.op with
  | rdmaWrite =>
    rw [hopc] at hx
    obtain ⟨-, page, hw⟩ := transfer?_write hx
    have hwrites : WritesPage p r := ⟨hpage, hopc⟩
    rw [hw] at hop'
    refine ⟨fun hstoring => ?_, fun _ page' type roffset hw' hmoved => ?_, fun _ type roffset hl => ?_⟩
    · rw [hop'] at hstoring
      cases hstoring
    · rw [hop'] at hw'
      cases hw'
      rw [lastFailed_completed _ tr q status hwrites] at hmoved
      have hstored : s.pages p = page := hi.pages p page (by rw [hw]; rfl)
      cases status with
      | error code => exact absurd ⟨code, rfl⟩ hmoved
      | success => simp [State.completed, State.setQueue, State.moveData, hopc, hpage, hstored]
    · rw [hop'] at hl
      cases hl
  | rdmaRead =>
    rw [hopc] at hx
    obtain ⟨-, hl⟩ := transfer?_read hx
    rw [hl] at hop'
    have hremote := moveData_remote s q status hopc
    refine ⟨fun _ page hlast hmoved => ?_, fun _ page type roffset hw => ?_,
      fun _ type roffset hl' hmoved t x hm => ?_⟩
    · have hnot : ¬ WritesPage p r := fun h => by
        have hwrite := h.2
        rw [hopc] at hwrite
        cases hwrite
      rw [lastFailed_other _ fun q' r' status' hmem => by
        cases List.mem_singleton.mp hmem
        exact hnot] at hmoved
      rw [hret] at hlast
      obtain ⟨t, x, hm, hrem⟩ := hk.stored (by rw [hl]; rfl) page hlast hmoved
      refine ⟨t, x, ?_, ?_⟩
      · simpa [State.completed, State.setQueue, hsched] using hm
      · simpa [State.completed, State.setQueue, hremote] using hrem
    · rw [hop'] at hw
      cases hw
    · have hof : OfPage p r := hpage
      rw [lastFailed_completed _ tr q status hof] at hmoved
      have hm' : s.driver.sched.mappingOf p = some (t, x) := by
        simpa [State.completed, State.setQueue, hsched] using hm
      have hok := hp.inv.ops p
      rw [hl] at hok
      obtain ⟨hdev, hoff⟩ := hok.2 t x hm'
      cases status with
      | error code => exact absurd ⟨code, rfl⟩ hmoved
      | success => simp [State.completed, State.setQueue, State.moveData, hopc, hpage, hdev, hoff]

/-- The hardware completes the work request of another pageid. -/
theorem Kept.complete_other (hk : Kept tr s p) (hp : Placed cfg n s.driver)
    (hin : (s.queues q).inflight = before ++ r :: after) (status : WcStatus) {p₁ : Fin n}
    (hx : transfer? (s.driver.op p₁) = some ⟨r.call.op, q.dev, s.roffset q r⟩)
    (hpage : r.call.page = p₁) (hpp : p₁ ≠ p) :
    Kept (tr ++ [.completed q r status]) (s.completed q before after r status) p := by
  obtain ⟨hop, hsched, -⟩ := moveData_eq s q r status
  have hne : r.call.page ≠ p := fun h => hpp (Fin.ext (hpage.symm.trans h))
  refine hk.frame hp (congrFun hop p) ?_ (moveData_pages s q status fun _ h => hne h.symm)
    (completed_arrived_other hin status hne) (fun t x hheld => ?_) (by simp [returns, Event.returned?])
    fun q' r' status' hmem => ?_
  · simp [State.completed, State.setQueue, hsched]
  · cases hopc : r.call.op with
    | rdmaRead => simp [State.completed, State.setQueue, moveData_remote s q status hopc]
    | rdmaWrite =>
      cases status with
      | error code => rfl
      | success =>
        obtain ⟨slot, hoff, -, hheld₁⟩ := hp.cell hx (by simp [hopc])
        have hcell : (t, x) ≠ (q.dev, slot) := by
          intro heq
          rw [heq] at hheld
          exact hpp (Fin.ext (hp.inv.rep.unique _ _ _ hheld₁ hheld))
        have hoff' : s.roffset q r = slot * pageSize := hoff
        simp only [State.completed, State.setQueue, State.moveData, hopc]
        by_cases ht : t = q.dev
        · have hx : x * pageSize ≠ s.roffset q r := by
            rw [hoff']
            intro heq
            exact hcell (by rw [ht, Nat.eq_of_mul_eq_mul_right (by decide) heq])
          rw [ht, Function.update_self, Function.update_of_ne hx]
        · rw [Function.update_of_ne ht]
  · cases List.mem_singleton.mp hmem
    exact hne

/-- What a call that returns shows: a store nothing but success. -/
inductive Shows (s : State α n) (p : Fin n) : ℤ → Concurrent.Event α → Prop
  | stored {page : α} {type roffset : ℕ} : s.driver.op p = .storeWrite page type roffset →
      Shows s p 0 (.stored p page 0)
  | loaded {type roffset : ℕ} : s.driver.op p = .loadRead type roffset →
      Shows s p 0 (.loaded p 0 (some (s.pages p)))
  | failed {type roffset : ℕ} {ret : ℤ} : s.driver.op p = .loadRead type roffset → ret ≠ 0 →
      Shows s p ret (.loaded p (-1) none)

theorem shows_of_leave (hi : Inv tr s) {u : Queue.State (Fin n)} {d : Queue.Call} {ret : ℤ}
    (hs : Queue.Step (s.queues q) [.returned p d ret] u) : Shows s p ret (s.result p ret) := by
  obtain ⟨hdrain, -, -, -, hvia⟩ := hi.leaves hs
  obtain ⟨⟨opcode, type, roffset⟩, hx, -, hserves⟩ := hi.on q p hvia
  rw [hdrain] at hserves
  have hcall : d = ⟨opcode, p⟩ := hserves
  cases opcode with
  | rdmaWrite =>
    obtain ⟨-, page, hw⟩ := transfer?_write hx
    obtain rfl : ret = 0 := Queue.zero_of_draining_write (hi.runs q) p d ret hdrain (by rw [hcall])
    have hresult : s.result p 0 = .stored p page 0 := by simp [State.result, hw]
    rw [hresult]
    exact .stored hw
  | rdmaRead =>
    obtain ⟨-, hl⟩ := transfer?_read hx
    by_cases hret : ret = 0
    · subst hret
      have hresult : s.result p 0 = .loaded p 0 (some (s.pages p)) := by simp [State.result, hl]
      rw [hresult]
      exact .loaded hl
    · have hresult : s.result p ret = .loaded p (-1) none := by simp [State.result, hl, hret]
      rw [hresult]
      exact .failed hl hret

/-- The call of the pageid returns. -/
theorem Kept.leave (hk : Kept tr s p) (hi : Inv tr s) (hp : Placed cfg n s.driver)
    {u : Queue.State (Fin n)} {d : Queue.Call} {ret : ℤ}
    (hs : Queue.Step (s.queues q) [.returned p d ret] u) :
    Kept (tr ++ [.onQueue q (.returned p d ret), .returned (s.result p ret)])
      { (s.setOp p .idle).setQueue q u with via := Function.update s.via p none } p := by
  have hret : returns (tr ++ [.onQueue q (.returned p d ret), .returned (s.result p ret)]) =
      returns tr ++ [s.result p ret] := returns_append ..
  have hstatus : LastFailed (WritesPage p)
      (tr ++ [.onQueue q (.returned p d ret), .returned (s.result p ret)]) ↔
        LastFailed (WritesPage p) tr := lastFailed_other _ (by simp)
  have hnot : ¬ State.Arrived { (s.setOp p .idle).setQueue q u with
      via := Function.update s.via p none } p := not_arrived_of_via (Function.update_self ..)
  refine ⟨fun _ page hlast hmoved => ?_, fun ha => absurd ha hnot, fun ha => absurd ha hnot⟩
  rw [hret] at hlast
  rw [hstatus] at hmoved
  have hshows := shows_of_leave hi hs
  generalize s.result p ret = e at hshows hlast
  cases hshows with
  | @stored page' type roffset hw =>
    rw [Concurrent.lastStored_stored, if_pos rfl] at hlast
    cases hlast
    have hok := hp.inv.ops p
    rw [hw] at hok
    obtain ⟨slot, hm, hoff⟩ := hok
    exact ⟨type, slot, hm, hoff ▸ hk.written (arrived_of_leave hi hs) page type roffset hw hmoved⟩
  | loaded hl | failed hl =>
    rw [Concurrent.lastStored_loaded] at hlast
    exact hk.stored (by rw [hl]; rfl) page hlast hmoved

end Steps

theorem Kept.step (hk : Kept tr s p) (hf : Concurrent.Fits cfg n) (hi : Inv tr s)
    (hp : Placed cfg n s.driver) (hs : Step cfg host s ev s') : Kept (tr ++ ev) s' p := by
  cases hs with
  | callStore p₀ page hidle =>
    have hvia := hi.via_none (p := p₀) (by rw [hidle]; rfl)
    by_cases hpp : p = p₀
    · subst hpp
      refine hk.silent (not_arrived_of_via hvia) rfl (by simp) rfl fun hs => ?_
      simp [State.setOp, Op.storing] at hs
    · have hne : (p : ℕ) ≠ p₀ := Fin.val_ne_of_ne hpp
      exact hk.frame hp (Function.update_of_ne hne _ _) rfl (Function.update_of_ne hne _ _) .rfl
        (fun _ _ _ => rfl) (by simp [returns]) (by simp)
  | callLoad p₀ page hidle =>
    have hvia := hi.via_none (p := p₀) (by rw [hidle]; rfl)
    by_cases hpp : p = p₀
    · subst hpp
      exact hk.silent (not_arrived_of_via hvia) rfl (by simp) rfl fun _ => ⟨by rw [hidle]; rfl, rfl⟩
    · have hne : (p : ℕ) ≠ p₀ := Fin.val_ne_of_ne hpp
      exact hk.frame hp (Function.update_of_ne hne _ _) rfl (Function.update_of_ne hne _ _) .rfl
        (fun _ _ _ => rfl) (by simp [returns]) (by simp)
  | schedule p₀ hne hnone hstep =>
    have hvia := hi.via_none hnone
    obtain ⟨rfl, hremote, hother, hself⟩ :=
      move_silent hp hf (hp.inv.advance_move hf hne hstep) hnone
    by_cases hpp : p = p₀
    · subst hpp
      exact hk.silent (not_arrived_of_via hvia) rfl (by simp) hremote hself
    · have hne' : (p : ℕ) ≠ p₀ := Fin.val_ne_of_ne hpp
      exact hk.frame hp (Function.update_of_ne hne' _ _) (hother p hne') rfl .rfl
        (fun t x _ => congrFun (congrFun hremote t) _) (by simp [returns]) (by simp)
  | start p₀ cpuid hx hvia =>
    exact hk.frame hp rfl rfl rfl (start_arrived hvia _ p) (fun _ _ _ => rfl) (by simp [returns])
      (by simp)
  | internal q hin =>
    exact hk.frame hp rfl rfl rfl (internal_arrived hi hin p) (fun _ _ _ => rfl)
      (by rw [returns_onQueue]; simp) (by simp)
  | post q p₀ hx hs =>
    exact hk.frame hp rfl rfl rfl (post_arrived hi hs _ p) (fun _ _ _ => rfl)
      (by simp [returns, Event.returned?]) (by simp)
  | @complete q before after r status hin =>
    obtain ⟨p₁, -, hpage, -, hx⟩ := hi.request (q := q) (r := r) (by rw [hin]; simp)
    by_cases hpp : p₁ = p
    · subst hpp
      exact hk.complete hi hp status hx hpage
    · exact hk.complete_other hp hin status hx hpage hpp
  | leave q p₀ hs =>
    by_cases hpp : p = p₀
    · subst hpp
      exact hk.leave hi hp hs
    · have hne : (p : ℕ) ≠ p₀ := Fin.val_ne_of_ne hpp
      refine hk.frame hp (Function.update_of_ne hne _ _) rfl rfl (leave_arrived_other hi hs hpp)
        (fun _ _ _ => rfl) (fun e he => ?_) (by simp)
      have hresult : e = s.result p₀ _ := List.mem_singleton.mp he
      rw [hresult, pageidOf_result]
      exact Ne.symm hne

theorem run_kept (hf : Concurrent.Fits cfg n) (h : (system cfg host n memory).Run tr s)
    (p : Fin n) : Kept tr s p := by
  refine h.invariant (I := fun tr s => Kept tr s p) (fun s hs => ?_) fun tr s ev s' hrun hk hs =>
    hk.step hf (run_inv hrun) (driver_placed hf hrun) hs
  obtain ⟨pages, rfl⟩ := hs
  refine ⟨fun _ page hlast => ?_, fun ha => ?_, fun ha => ?_⟩
  · cases hlast
  · exact absurd ha (not_arrived_of_via rfl)
  · exact absurd ha (not_arrived_of_via rfl)

/-- Every store that returns reports success. A load of a stored pageid delivers what the
last completed store was given, as long as the hardware wrote that page and read it again;
it fails only where its own page could not be mapped, in this very call. What happens to the
mappings and work requests of other pageids does not matter. -/
theorem load_delivers (debugVm : Bool) (hn : n ≤ remoteBufSize >>> pageShift)
    (h : (system (initScheduler debugVm) host n memory).Run tr s)
    (hs : Step (initScheduler debugVm) host s ev s') :
    (∀ p page ret, .returned (.stored p page ret) ∈ ev → ret = 0) ∧
      ∀ (p : ℕ) page ret d, .returned (.loaded p ret d) ∈ ev → lastStored p (returns tr) = some page →
        ¬ LastFailed (WritesPage p) tr → ¬ LastFailed (OfPage p) tr →
          (ret = 0 ∧ d = some page) ∨ (ret = -1 ∧ d = none ∧ Unmapped p tr) := by
  have hf := Concurrent.fits_initScheduler debugVm hn
  have hi := run_inv h
  have hp := driver_placed hf h
  cases hs with
  | callStore | callLoad | start | internal | post | complete => simp
  | schedule p₀ hne hnone hstep =>
    obtain ⟨rfl, -⟩ := move_silent hp hf (hp.inv.advance_move hf hne hstep) hnone
    simp
  | @leave q p₀ d ret₀ u hs =>
    have hshows := shows_of_leave hi hs
    generalize s.result p₀ ret₀ = e at hshows
    have hmem : ∀ e', Event.returned e' ∈ [Event.onQueue q (.returned p₀ d ret₀), .returned e] →
        e' = e := fun e' he => by simpa using he
    refine ⟨fun p page ret he => ?_, fun p page ret d' he hlast hwrites hof => ?_⟩
    · have heq := hmem _ he
      cases hshows <;> cases heq
      rfl
    · have heq := hmem _ he
      cases hshows with
      | stored => cases heq
      | failed hl hret =>
        cases heq
        exact .inr ⟨rfl, rfl, unmapped_of_leave (run_blamed h) hi hs hret⟩
      | loaded hl =>
        cases heq
        have hk := run_kept hf h p₀
        obtain ⟨t, x, hm, hrem⟩ := hk.stored (by rw [hl]; rfl) page hlast hwrites
        have hread := hk.read (arrived_of_leave hi hs) _ _ hl hof t x hm
        exact .inl ⟨rfl, by rw [hread, hrem]⟩

/-- A load of pageid 1 that is about to read contents 7, with atomic transfers. -/
theorem atomic_reading : ∃ t,
    (Concurrent.system (initScheduler false) 2 fun _ _ => (0 : ℕ)).Run [.stored 1 7 0] t ∧
      t.op 1 = .loadRead 1 0 := by
  have hstore : (Concurrent.system (initScheduler false) 2 fun _ _ => (0 : ℕ)).Run [] _ :=
    .step (.start rfl) (.callStore 1 7 (by decide) rfl)
  have hstored := Concurrent.Run.solo (p := 1) (k := 4) hstore rfl
  have hload := hstored.step (.callLoad 1 (by decide) rfl)
  exact ⟨_, Concurrent.Run.solo (p := 1) (k := 1) hload rfl, rfl⟩

/-- Over the queues its return delivers them. -/
theorem load_delivers_once : ∃ (s s' : State ℕ 2) (ev : List (Event ℕ 2)) (d : ℕ),
    Step (initScheduler false) ⟨6, false⟩ s ev s' ∧ .returned (.loaded 1 0 (some d)) ∈ ev ∧
      d = 7 := by
  obtain ⟨t, ht, hop⟩ := atomic_reading
  have hsmall : 2 ≤ remoteBufSize >>> pageShift := by decide
  obtain ⟨tr, s, hs, hclean, hret, rfl, hrest⟩ := @realized ℕ _ _ ⟨6, false⟩
    (Concurrent.fits_initScheduler false hsmall) (by decide) _ _ _ ht
  have hx : transfer? (s.driver.op (1 : Fin 2)) = some ⟨.rdmaRead, 1, 0⟩ := by
    show transfer? (s.driver.op 1) = _
    rw [hop]
    rfl
  obtain ⟨m, q, u, c, ⟨ev, hsteps, hclean', hret'⟩, hop'⟩ : ∃ (m : State ℕ 2) (q : QueueId)
      (u : Queue.State (Fin 2)) (c : Queue.Call), Goes (initScheduler false) ⟨6, false⟩ s []
        (m.setQueue q (alone u 1 (.loop c (.drain 0)) 0 [] [])) ∧ m.driver.op 1 = .loadRead 1 0 := by
    refine ⟨_, _, _, _, goes_moved _ hrest hx (by decide) (show 0 < 6 by decide) rfl rfl rfl, ?_⟩
    rw [State.moved, (moveData_eq _ _ _ _).1]
    exact hop
  have hresult : .loaded 1 0 (some (m.pages 1)) = m.result (1 : Fin 2) 0 := by
    simp [State.result, hop']
  have hlast : lastStored 1 (returns (tr ++ ev)) = some 7 := by
    rw [returns_append, hret, hret']
    rfl
  have hall := hclean.append hclean'
  have hmem : Event.returned (.loaded 1 0 (some (m.pages 1))) ∈
      [Event.onQueue q (.returned (1 : Fin 2) c 0), .returned (m.result (1 : Fin 2) 0)] := by
    rw [hresult]
    exact List.mem_cons_of_mem _ (List.mem_singleton_self _)
  have hstep : Step (initScheduler false) ⟨6, false⟩
      (m.setQueue q (alone u 1 (.loop c (.drain 0)) 0 [] [])) _ _ := left_step
  rcases (load_delivers false hsmall (hs.steps hsteps) hstep).2 1 7 0 _ hmem hlast
    (hall.not_lastFailed _) (hall.not_lastFailed _) with ⟨-, hd⟩ | ⟨hret, -⟩
  · exact ⟨_, _, _, m.pages 1, hstep, hmem, Option.some.inj hd⟩
  · cases hret

/-- Stores of pageids 1 and 3 that are about to write, with atomic transfers. -/
theorem atomic_writing : ∃ t, (Concurrent.system (initScheduler false) 4 fun _ _ => (0 : ℕ)).Run [] t ∧
    t.op 1 = .storeWrite 7 1 0 ∧ t.op 3 = .storeWrite 9 1 4096 := by
  have hstore : (Concurrent.system (initScheduler false) 4 fun _ _ => (0 : ℕ)).Run [] _ :=
    .step (.start rfl) (.callStore 1 7 (by decide) rfl)
  have hwriting := Concurrent.Run.solo (p := 1) (k := 3) hstore rfl
  have hstore' := hwriting.step (.callStore 3 9 (by decide) rfl)
  exact ⟨_, Concurrent.Run.solo (p := 3) (k := 3) hstore' rfl, rfl, rfl⟩

/-- On two processors they have posted their requests to node 1. -/
theorem exists_inflight : ∃ (tr : List (Event ℕ 4)) (s : State ℕ 4) (r₁ r₂ : Queue.Req),
    (system (initScheduler false) ⟨6, false⟩ 4 fun _ _ => 0).Run tr s ∧
      r₁ ∈ (s.queues ⟨1, 12⟩).inflight ∧ r₁.call = ⟨.rdmaWrite, 1⟩ ∧
        r₂ ∈ (s.queues ⟨1, 13⟩).inflight ∧ r₂.call = ⟨.rdmaWrite, 3⟩ := by
  obtain ⟨t, ht, hop₁, hop₃⟩ := atomic_writing
  have hsmall : 4 ≤ remoteBufSize >>> pageShift := by decide
  obtain ⟨tr, s, hs, -, -, rfl, hrest⟩ := @realized ℕ _ _ ⟨6, false⟩
    (Concurrent.fits_initScheduler false hsmall) (by decide) _ _ _ ht
  have hx₁ : transfer? (s.driver.op (1 : Fin 4)) = some ⟨.rdmaWrite, 1, 0⟩ := by
    show transfer? (s.driver.op 1) = _
    rw [hop₁]
    rfl
  have hx₃ : transfer? (s.driver.op (3 : Fin 4)) = some ⟨.rdmaWrite, 1, 4096⟩ := by
    show transfer? (s.driver.op 3) = _
    rw [hop₃]
    rfl
  obtain ⟨m, r₁, ⟨ev₁, hsteps₁, -⟩, hr₁, hcall₁, hdriver, hvia, hqueues⟩ :=
    exists_posted (initScheduler false) ⟨6, false⟩ 0 (q := ⟨1, 12⟩) (hrest.via 1) (hrest.calm _) hx₁
      (by decide) (by decide) rfl
  obtain ⟨s', r₂, ⟨ev₂, hsteps₂, -⟩, hr₂, hcall₂, -, -, hqueues'⟩ :=
    exists_posted (initScheduler false) ⟨6, false⟩ 1 (s := m) (q := ⟨1, 13⟩) (p := 3)
      ((hvia 3 (by decide)).trans (hrest.via 3)) (hqueues ⟨1, 13⟩ (by decide) ▸ hrest.calm _)
      (hdriver ▸ hx₃) (by decide) (by decide) rfl
  rw [← hqueues' ⟨1, 12⟩ (by decide)] at hr₁
  exact ⟨_, s', r₁, r₂, (hs.steps hsteps₁).steps hsteps₂, hr₁, hcall₁, hr₂, hcall₂⟩

/-- The two requests are inside the buffer and apart. -/
theorem inflight_apart_posted : ∃ (s : State ℕ 4) (r₁ r₂ : Queue.Req),
    r₁ ∈ (s.queues ⟨1, 12⟩).inflight ∧ r₂ ∈ (s.queues ⟨1, 13⟩).inflight ∧
      s.roffset ⟨1, 12⟩ r₁ + pageSize ≤ Server.bufferSize ∧
        s.roffset ⟨1, 12⟩ r₁ ≠ s.roffset ⟨1, 13⟩ r₂ := by
  obtain ⟨tr, s, r₁, r₂, hrun, hr₁, hcall₁, hr₂, hcall₂⟩ := exists_inflight
  obtain ⟨⟨-, hin⟩, hapart⟩ := inflight_apart false (by decide) hrun hr₁
  refine ⟨s, r₁, r₂, hr₁, hr₂, hin, fun heq => ?_⟩
  have hsame := hapart ⟨1, 13⟩ r₂ hr₂ rfl heq (fun h => by simp [hcall₁] at h)
    (fun h => by simp [hcall₂] at h)
  exact absurd hsame.1 (by decide)

end Multiswap.Transport
