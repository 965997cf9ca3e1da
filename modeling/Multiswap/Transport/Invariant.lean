import Multiswap.Transport.Defs

/-!
# Who is on a queue

Every queue runs as it does in `Multiswap.Queue`, with the calls that have picked it as
its callers. A request in flight belongs to a call that has posted it and drains the
queue, and there is no second one for the same page.
-/

namespace Multiswap.Transport

open Concurrent (Op)
open Queue (Internal Stage)
open Rdma (Host WcStatus)

/-- The caller runs this call, or was stopped in it. -/
def Serves (c : Queue.Call) : Stage → Prop
  | .idle => False
  | .adding c' | .draining c' _ => c' = c
  | .stopped => True

/-- The page that a store was given. -/
def pageOf? {α : Type} : Op α → Option α
  | .idle | .loadLookup | .loadRead .. => none
  | .storeLoad page .. | .storeClear page .. | .storeProbe page .. | .storeRecord page ..
  | .storeWrite page .. => some page

/-- What an internal step can do to a caller. -/
inductive Drift : Stage → Stage → Prop
  | same (a : Stage) : Drift a a
  | stop (c : Queue.Call) : Drift (.adding c) .stopped
  | fail (c : Queue.Call) {ret : ℤ} : ret ≠ 0 → Drift (.adding c) (.draining c ret)

variable {α : Type} {n : ℕ} {a b : Stage} {c : Queue.Call}

theorem transfer?_write {op : Op α} {type roffset : ℕ}
    (h : transfer? op = some ⟨.rdmaWrite, type, roffset⟩) :
    roffset < remoteBufSize ∧ ∃ page, op = .storeWrite page type roffset := by
  unfold transfer? at h
  split at h <;> simp only [Option.ite_none_right_eq_some, Option.some.injEq, Transfer.mk.injEq,
    reduceCtorEq, false_and, and_false, true_and] at h
  obtain ⟨hlt, rfl, rfl⟩ := h
  exact ⟨hlt, _, rfl⟩

theorem transfer?_read {op : Op α} {type roffset : ℕ}
    (h : transfer? op = some ⟨.rdmaRead, type, roffset⟩) :
    roffset < remoteBufSize ∧ op = .loadRead type roffset := by
  unfold transfer? at h
  split at h <;> simp only [Option.ite_none_right_eq_some, Option.some.injEq, Transfer.mk.injEq,
    reduceCtorEq, false_and, and_false, true_and] at h
  obtain ⟨hlt, rfl, rfl⟩ := h
  exact ⟨hlt, rfl⟩

theorem Drift.serves (h : Drift a b) (hs : Serves c a) : Serves c b := by
  cases h with
  | same => exact hs
  | stop => trivial
  | fail => exact hs

theorem Drift.idle_iff (h : Drift a b) : b = .idle ↔ a = .idle := by
  cases h <;> simp

/-- Only a post starts a drain that is going to return 0. -/
theorem Drift.draining_iff (h : Drift a b) : b = .draining c 0 ↔ a = .draining c 0 := by
  cases h with
  | same => rfl
  | stop => simp
  | fail d hret => simp [hret]

section Atomic

variable {cfg : Config}

/-- A probe does not change the page of its store. -/
theorem probeStep_page {p : ℕ} {page : α} {second : Bool} {flags : RemoteMappingFlags}
    {i offset : ℕ} {s : Scheduler} :
    pageOf? (Concurrent.probeStep cfg p page second flags i offset s).1 = some page := by
  simp only [Concurrent.probeStep, Concurrent.afterSelect, Concurrent.afterFull]
  split
  · split
    · split <;> rfl
    · rfl
  · split <;> rfl

/-- The events of an atomic step are about its pageid, and the page of a store stays. -/
theorem stepOp_frame {p : ℕ} {d : Concurrent.State α} {op : Op α} {sched : Scheduler}
    {remote : ℕ → ℕ → α} {ev : List (Concurrent.Event α)}
    (hs : Concurrent.stepOp cfg p d = .ok (op, sched, remote, ev)) :
    (∀ e ∈ ev, pageidOf e = p) ∧
      ∀ page, pageOf? op = some page → pageOf? (d.op p) = some page := by
  cases hop : d.op p with
  | idle =>
    simp only [Concurrent.stepOp, hop, Except.ok.injEq, Prod.mk.injEq] at hs
    obtain ⟨rfl, rfl, rfl, rfl⟩ := hs
    exact ⟨by simp, fun _ h => h⟩
  | storeLoad page second flags =>
    simp only [Concurrent.stepOp, hop, bind, Except.bind, pure, Except.pure] at hs
    split at hs
    · cases hs
    · cases hs
      refine ⟨by simp, fun page' h => ?_⟩
      split at h <;> exact h
  | storeClear page second flags entry =>
    simp only [Concurrent.stepOp, hop, bind, Except.bind, pure, Except.pure] at hs
    split at hs
    · cases hs
    · cases hs
      exact ⟨by simp, fun _ h => h⟩
  | storeProbe page second flags i offset =>
    simp only [Concurrent.stepOp, hop, bind, Except.bind, pure, Except.pure] at hs
    split at hs
    · cases hs
    · cases hs
      refine ⟨by simp, fun page' h => ?_⟩
      rw [probeStep_page] at h
      exact h
  | storeRecord page second flags slot =>
    simp only [Concurrent.stepOp, hop] at hs
    cases hs
    exact ⟨by simp, fun _ h => h⟩
  | storeWrite page type roffset =>
    simp only [Concurrent.stepOp, hop] at hs
    split at hs <;> cases hs <;> exact ⟨by simp [pageidOf], fun _ h => by cases h⟩
  | loadLookup =>
    simp only [Concurrent.stepOp, hop, bind, Except.bind, pure, Except.pure] at hs
    split at hs
    · cases hs
    · cases hs
      exact ⟨by simp, fun _ h => by cases h⟩
  | loadRead type roffset =>
    simp only [Concurrent.stepOp, hop] at hs
    split at hs <;> cases hs <;> exact ⟨by simp [pageidOf], fun _ h => by cases h⟩

/-- An atomic step reads the scheduler, the remote memory and its own call. -/
theorem stepOp_congr (cfg : Config) {p : ℕ} {d d' : Concurrent.State α} (hsched : d'.sched = d.sched)
    (hremote : d'.remote = d.remote) (hop : d'.op p = d.op p) :
    Concurrent.stepOp cfg p d' = Concurrent.stepOp cfg p d := by
  simp only [Concurrent.stepOp, hop, hsched, hremote]

end Atomic

section Queues

variable {s t : Queue.State (Fin n)} {ev : List (Queue.Event (Fin n))}

theorem drift_afterAdd (c : Queue.Call) {ret : ℤ} (hret : ret ≠ 0) :
    Drift (.adding c) (Queue.afterAdd c ret).stage :=
  Queue.afterAdd_of (P := fun pc => Drift (.adding c) pc.stage) (.fail c hret) fun _ _ => .stop c

theorem internal_drift (h : Internal s ev t) (ho : Queue.OwnRequests s) :
    (∀ i, Drift (s.stage i) (t.stage i)) ∧ t.inflight = s.inflight := by
  have hmove : ∀ {i : Fin n} {a : Stage}, t.stage = Function.update s.stage i a →
      Drift (s.stage i) a → ∀ j, Drift (s.stage j) (t.stage j) := by
    intro i a hstage hdrift j
    by_cases hj : j = i
    · subst hj
      rw [hstage, Function.update_self]
      exact hdrift
    · rw [hstage, Function.update_of_ne hj]
      exact .same _
  cases h.step.turn ho with
  | call i c hidle hstage hin =>
    have hstays : t.stage i = .idle := by
      rw [Queue.State.stage, h.idle i (Queue.Pc.stage_eq_idle.mp hidle)]
      rfl
    rw [hstage, Function.update_self] at hstays
    cases hstays
  | inside hstage hin =>
    refine ⟨fun i => ?_, hin⟩
    rw [hstage]
    exact .same _
  | @stop _ _ i c hadding hstage hin =>
    refine ⟨hmove hstage ?_, hin⟩
    rw [hadding]
    exact .stop c
  | @fail _ _ i c ret hadding hret hstage hin =>
    refine ⟨hmove hstage ?_, hin⟩
    rw [hadding]
    exact drift_afterAdd c hret
  | post i => exact absurd (List.mem_singleton_self _) (h.posts _ _)
  | leave i => exact absurd (List.mem_singleton_self _) (h.returns _ _ _)
  | complete status _ _ _ hcq =>
    have hlen := h.completes
    rw [hcq, List.length_append, List.length_singleton] at hlen
    omega

end Queues

/-- The invariant of the calls and their queues. -/
structure Inv (tr : List (Event α n)) (s : State α n) : Prop where
  runs : ∀ q, (Queue.system (Fin n)).Run (tr.filterMap (Event.on? q)) (s.queues q)
  -- No caller is on a queue that its call has not picked.
  off : ∀ q p, s.via p ≠ some q → (s.queues q).stage p = .idle
  on : ∀ q p, s.via p = some q → ∃ x, transfer? (s.driver.op p) = some x ∧ x.dev = q.dev ∧
    Serves ⟨x.opcode, p⟩ ((s.queues q).stage p)
  inflight : ∀ q, ∀ r ∈ (s.queues q).inflight, ∃ p x, s.via p = some q ∧
    transfer? (s.driver.op p) = some x ∧ (s.queues q).stage p = .draining r.call 0 ∧
      s.roffset q r = x.roffset
  unique : ∀ q, ((s.queues q).inflight.map fun r => r.call.page).Nodup
  pages : ∀ (p : Fin n) page, pageOf? (s.driver.op p) = some page → s.pages p = page

section Step

variable {cfg : Config} {host : Host} {tr ev : List (Event α n)} {s s' : State α n} {p : Fin n}
  {q : QueueId}

theorem on_append (q : QueueId) (tr ev : List (Event α n)) :
    (tr ++ ev).filterMap (Event.on? q) = tr.filterMap (Event.on? q) ++ ev.filterMap (Event.on? q) :=
  List.filterMap_append

theorem on_self (q : QueueId) (ev : List (Queue.Event (Fin n))) :
    (ev.map (Event.onQueue (α := α) q)).filterMap (Event.on? q) = ev := by
  rw [List.filterMap_map]
  exact (List.filterMap_congr fun e _ => by simp [Event.on?]).trans (List.filterMap_some)

theorem on_other {q q' : QueueId} (hq : q' ≠ q) (ev : List (Queue.Event (Fin n))) :
    (ev.map (Event.onQueue (α := α) q)).filterMap (Event.on? q') = [] := by
  rw [List.filterMap_map]
  exact List.filterMap_eq_nil_iff.mpr fun e _ => by simp [Event.on?, Ne.symm hq]

theorem on_returned (q : QueueId) (ev : List (Concurrent.Event α)) :
    (ev.map (Event.returned (n := n))).filterMap (Event.on? q) = [] := by
  rw [List.filterMap_map]
  exact List.filterMap_eq_nil_iff.mpr fun e _ => rfl

/-- A call that makes no transfer is on no queue. -/
theorem Inv.via_none (h : Inv tr s) (hop : transfer? (s.driver.op p) = none) : s.via p = none := by
  cases hvia : s.via p with
  | none => rfl
  | some q =>
    obtain ⟨x, hx, -⟩ := h.on q p hvia
    rw [hop] at hx
    cases hx

/-- The request in flight for a page is that of the call that drains the queue. -/
theorem Inv.request (h : Inv tr s) {r : Queue.Req} (hr : r ∈ (s.queues q).inflight) :
    ∃ p : Fin n, s.via p = some q ∧ r.call.page = p ∧
      (s.queues q).stage p = .draining r.call 0 ∧
      transfer? (s.driver.op p) = some ⟨r.call.op, q.dev, s.roffset q r⟩ := by
  obtain ⟨p, x, hvia, hx, hstage, hoff⟩ := h.inflight q r hr
  obtain ⟨x', hx', hdev, hserves⟩ := h.on q p hvia
  rw [hx] at hx'
  cases hx'
  rw [hstage] at hserves
  have hcall : r.call = ⟨x.opcode, p⟩ := hserves
  refine ⟨p, hvia, by rw [hcall], hstage, ?_⟩
  rw [hx, hcall, ← hdev, hoff]

/-- A step of a call that is on no queue. -/
theorem Inv.offQueue (h : Inv tr s) (hvia : s.via p = none) (hqueues : s'.queues = s.queues)
    (hv : s'.via = s.via) (hoff : s'.roffset = s.roffset)
    (hop : ∀ p' : ℕ, p' ≠ p → s'.driver.op p' = s.driver.op p')
    (hpages : ∀ p' : ℕ, p' ≠ p → s'.pages p' = s.pages p')
    (hp : ∀ page, pageOf? (s'.driver.op p) = some page → s'.pages p = page)
    (hev : ∀ q, ev.filterMap (Event.on? q) = []) : Inv (tr ++ ev) s' := by
  have hne : ∀ {q p'}, s.via p' = some q → (p' : ℕ) ≠ p := by
    intro q p' hp' heq
    rw [Fin.ext heq, hvia] at hp'
    cases hp'
  constructor
  · intro q
    rw [on_append, hev, List.append_nil, hqueues]
    exact h.runs q
  · intro q p' hp'
    rw [hqueues]
    exact h.off q p' (hv ▸ hp')
  · intro q p' hp'
    rw [hv] at hp'
    rw [hqueues, hop p' (hne hp')]
    exact h.on q p' hp'
  · intro q r hr
    rw [hqueues] at hr
    obtain ⟨p', x, hp', hx, hstage, hoff'⟩ := h.inflight q r hr
    refine ⟨p', x, hv ▸ hp', ?_, ?_, ?_⟩
    · rw [hop p' (hne hp')]
      exact hx
    · rw [hqueues]
      exact hstage
    · rw [hoff]
      exact hoff'
  · intro q
    rw [hqueues]
    exact h.unique q
  · intro p' page hpage
    by_cases hp' : (p' : ℕ) = p
    · rw [hp'] at hpage ⊢
      exact hp page hpage
    · rw [hop p' hp'] at hpage
      rw [hpages p' hp']
      exact h.pages p' page hpage

section OneQueue

variable {t : Queue.State (Fin n)} {evq : List (Queue.Event (Fin n))}

/-- A step of one queue. -/
theorem Inv.runs_step (h : Inv tr s) (hs : Queue.Step (s.queues q) evq t)
    (hself : ev.filterMap (Event.on? q) = evq)
    (hother : ∀ q', q' ≠ q → ev.filterMap (Event.on? q') = []) (q' : QueueId) :
    (Queue.system (Fin n)).Run ((tr ++ ev).filterMap (Event.on? q'))
      (Function.update s.queues q t q') := by
  rw [on_append]
  by_cases hq : q' = q
  · subst hq
    rw [Function.update_self, hself]
    exact (h.runs q').step hs
  · rw [Function.update_of_ne hq, hother q' hq, List.append_nil]
    exact h.runs q'

theorem Inv.internal (h : Inv tr s) (hi : Internal (s.queues q) evq t) :
    Inv (tr ++ evq.map (.onQueue q)) (s.setQueue q t) := by
  obtain ⟨hdrift, hin⟩ := internal_drift hi (Queue.run_ownRequests (h.runs q))
  constructor
  · exact h.runs_step hi.step (on_self q evq) fun q' hq => on_other hq evq
  · intro q' p' hp'
    by_cases hq : q' = q
    · subst hq
      simpa [State.setQueue] using (hdrift p').idle_iff.mpr (h.off q' p' hp')
    · simpa [State.setQueue, hq] using h.off q' p' hp'
  · intro q' p' hp'
    obtain ⟨x, hx, hdev, hserves⟩ := h.on q' p' hp'
    refine ⟨x, hx, hdev, ?_⟩
    by_cases hq : q' = q
    · subst hq
      simpa [State.setQueue] using (hdrift p').serves hserves
    · simpa [State.setQueue, hq] using hserves
  · intro q' r hr
    by_cases hq : q' = q
    · subst hq
      simp only [State.setQueue, Function.update_self, hin] at hr
      obtain ⟨p', x, hp', hx, hstage, hoff⟩ := h.inflight q' r hr
      refine ⟨p', x, hp', hx, ?_, hoff⟩
      simpa [State.setQueue] using (hdrift p').draining_iff.mpr hstage
    · simp only [State.setQueue, Function.update_of_ne hq] at hr ⊢
      exact h.inflight q' r hr
  · intro q'
    by_cases hq : q' = q
    · subst hq
      simpa [State.setQueue, hin] using h.unique q'
    · simpa [State.setQueue, hq] using h.unique q'
  · exact h.pages

theorem Inv.start (h : Inv tr s) {x : Transfer} (hx : transfer? (s.driver.op p) = some x)
    (hvia : s.via p = none) (hdev : x.dev = q.dev) :
    Inv (tr ++ []) { s.setQueue q ((s.queues q).goto p (.pressure ⟨x.opcode, p⟩)) with
      via := Function.update s.via p (some q) } := by
  have hidle : (s.queues q).pc p = .idle :=
    Queue.Pc.stage_eq_idle.mp (h.off q p (by simp [hvia]))
  have hstage : ((s.queues q).goto p (.pressure ⟨x.opcode, p⟩)).stage =
      Function.update (s.queues q).stage p (.adding ⟨x.opcode, p⟩) := Queue.stage_goto ..
  have hne : ∀ {q' p'}, s.via p' = some q' → p' ≠ p := by
    rintro q' p' hp' rfl
    rw [hvia] at hp'
    cases hp'
  constructor
  · exact h.runs_step (.call p _ hidle) rfl fun _ _ => rfl
  · intro q' p' hp'
    by_cases hpp : p' = p
    · subst hpp
      have hq : q' ≠ q := by
        rintro rfl
        exact hp' (Function.update_self ..)
      simpa [State.setQueue, hq] using h.off q' p' (by simp [hvia])
    · simp only [Function.update_of_ne hpp] at hp'
      by_cases hq : q' = q
      · subst hq
        simpa [State.setQueue, hstage, hpp] using h.off q' p' hp'
      · simpa [State.setQueue, hq] using h.off q' p' hp'
  · intro q' p' hp'
    by_cases hpp : p' = p
    · subst hpp
      simp only [Function.update_self, Option.some.injEq] at hp'
      subst hp'
      exact ⟨x, hx, hdev, by simp [State.setQueue, hstage, Serves]⟩
    · simp only [Function.update_of_ne hpp] at hp'
      obtain ⟨x', hx', hdev', hserves⟩ := h.on q' p' hp'
      refine ⟨x', hx', hdev', ?_⟩
      by_cases hq : q' = q
      · subst hq
        simpa [State.setQueue, hstage, hpp] using hserves
      · simpa [State.setQueue, hq] using hserves
  · intro q' r hr
    have hr' : r ∈ (s.queues q').inflight := by
      by_cases hq : q' = q
      · subst hq
        simpa [State.setQueue, Queue.State.goto] using hr
      · simpa [State.setQueue, hq] using hr
    obtain ⟨p', x', hp', hx', hdrain, hoff⟩ := h.inflight q' r hr'
    refine ⟨p', x', by simpa [hne hp'] using hp', hx', ?_, hoff⟩
    by_cases hq : q' = q
    · subst hq
      simpa [State.setQueue, hstage, hne hp'] using hdrain
    · simpa [State.setQueue, hq] using hdrain
  · intro q'
    by_cases hq : q' = q
    · subst hq
      simpa [State.setQueue, Queue.State.goto] using h.unique q'
    · simpa [State.setQueue, hq] using h.unique q'
  · exact h.pages

/-- What a post finds: the call has picked the queue, and it has no request in flight. -/
theorem Inv.posts (h : Inv tr s) {r : Queue.Req} (hs : Queue.Step (s.queues q) [.posted p r] t) :
    (s.queues q).stage p = .adding r.call ∧
      t.stage = Function.update (s.queues q).stage p (.draining r.call 0) ∧
      t.inflight = (s.queues q).inflight ++ [r] ∧ s.via p = some q ∧ r.call.page = p ∧
      ∀ r' ∈ (s.queues q).inflight, r'.call.page ≠ p := by
  have hturn := hs.turn (Queue.run_ownRequests (h.runs q))
  cases hturn with
  | inside _ _ hinside | stop _ _ _ _ hinside => exact (hinside _ (List.mem_singleton_self _)).elim
  | fail _ _ _ _ _ _ hfail => exact (hfail _ (List.mem_singleton_self _)).elim
  | post _ hadding hstage hin =>
    have hvia : s.via p = some q := by
      by_contra hne
      rw [h.off q p hne] at hadding
      cases hadding
    obtain ⟨x, hx, hdev, hserves⟩ := h.on q p hvia
    rw [hadding] at hserves
    have hcall : r.call = ⟨x.opcode, p⟩ := hserves
    refine ⟨hadding, hstage, hin, hvia, by rw [hcall], fun r' hr' hpage => ?_⟩
    obtain ⟨p', -, hpage', hdrain, -⟩ := h.request hr'
    rw [Fin.ext (hpage'.symm.trans hpage), hadding] at hdrain
    cases hdrain

theorem Inv.post (h : Inv tr s) {x : Transfer} {r : Queue.Req}
    (hx : transfer? (s.driver.op p) = some x) (hs : Queue.Step (s.queues q) [.posted p r] t) :
    Inv (tr ++ [.onQueue q (.posted p r)]) { s.setQueue q t with
      roffset := Function.update s.roffset q (Function.update (s.roffset q) r x.roffset) } := by
  obtain ⟨hadding, hstage, hin, hvia, hpage, hother⟩ := h.posts hs
  constructor
  · exact h.runs_step hs (on_self q [_]) fun q' hq => on_other hq [_]
  · intro q' p' hp'
    by_cases hq : q' = q
    · subst hq
      have hpp : p' ≠ p := by
        rintro rfl
        exact hp' hvia
      simpa [State.setQueue, hstage, hpp] using h.off q' p' hp'
    · simpa [State.setQueue, hq] using h.off q' p' hp'
  · intro q' p' hp'
    obtain ⟨x', hx', hdev, hserves⟩ := h.on q' p' hp'
    refine ⟨x', hx', hdev, ?_⟩
    by_cases hq : q' = q
    · subst hq
      by_cases hpp : p' = p
      · subst hpp
        rw [hadding] at hserves
        simpa [State.setQueue, hstage, Serves] using hserves
      · simpa [State.setQueue, hstage, hpp] using hserves
    · simpa [State.setQueue, hq] using hserves
  · intro q' r' hr'
    by_cases hq : q' = q
    · subst hq
      simp only [State.setQueue, Function.update_self, hin, List.mem_append,
        List.mem_singleton] at hr'
      rcases hr' with hr' | rfl
      · obtain ⟨p', x', hp', hx', hdrain, hoff⟩ := h.inflight q' r' hr'
        have hpp : p' ≠ p := by
          rintro rfl
          rw [hadding] at hdrain
          cases hdrain
        have hrr : r' ≠ r := by
          rintro rfl
          exact hother r' hr' hpage
        refine ⟨p', x', hp', hx', ?_, by simpa [hrr] using hoff⟩
        simpa [State.setQueue, hstage, hpp] using hdrain
      · exact ⟨p, x, hvia, hx, by simp [State.setQueue, hstage], by simp⟩
    · simp only [State.setQueue, Function.update_of_ne hq] at hr' ⊢
      exact h.inflight q' r' hr'
  · intro q'
    by_cases hq : q' = q
    · subst hq
      simp only [State.setQueue, Function.update_self, hin, List.map_append, List.map_cons,
        List.map_nil]
      refine List.Nodup.append (h.unique q') (List.nodup_singleton _) ?_
      rw [List.disjoint_singleton]
      intro hmem
      obtain ⟨r', hr', hpage'⟩ := List.mem_map.mp hmem
      exact hother r' hr' (hpage'.trans hpage)
    · simpa [State.setQueue, hq] using h.unique q'
  · exact h.pages

/-- The hardware moves data: only the page of a load or a cell of remote memory changes. -/
theorem moveData_eq (s : State α n) (q : QueueId) (r : Queue.Req) (status : WcStatus) :
    (s.moveData q r status).driver.op = s.driver.op ∧
      (s.moveData q r status).driver.sched = s.driver.sched ∧
      (s.moveData q r status).via = s.via ∧ (s.moveData q r status).queues = s.queues ∧
      (s.moveData q r status).roffset = s.roffset := by
  cases status with
  | error code => exact ⟨rfl, rfl, rfl, rfl, rfl⟩
  | success =>
    unfold State.moveData
    cases r.call.op <;> exact ⟨rfl, rfl, rfl, rfl, rfl⟩

/-- A page changes only while a read of it is in flight. -/
theorem moveData_pages (s : State α n) (q : QueueId) {r : Queue.Req} (status : WcStatus) {p' : ℕ}
    (hp : r.call.op = .rdmaRead → p' ≠ r.call.page) : (s.moveData q r status).pages p' = s.pages p' := by
  cases status with
  | error code => rfl
  | success =>
    unfold State.moveData
    cases hop : r.call.op with
    | rdmaWrite => rfl
    | rdmaRead => exact Function.update_of_ne (hp hop) _ _

theorem Inv.complete (h : Inv tr s) {before after : List Queue.Req} {r : Queue.Req}
    (status : WcStatus) (hin : (s.queues q).inflight = before ++ r :: after) :
    Inv (tr ++ [.completed q r status]) ((s.moveData q r status).setQueue q
      { s.queues q with
        inflight := before ++ after, cq := (s.queues q).cq ++ [(r, status)] }) := by
  obtain ⟨hop, -, hv, hqueues, hroffset⟩ := moveData_eq s q r status
  obtain ⟨p, hvia, hpage, hdrain, hx⟩ := h.request (q := q) (r := r) (by rw [hin]; simp)
  have hstage : ∀ q' p', (((s.moveData q r status).setQueue q { s.queues q with
      inflight := before ++ after, cq := (s.queues q).cq ++ [(r, status)] }).queues q').stage p' =
        (s.queues q').stage p' := by
    intro q' p'
    by_cases hq : q' = q
    · subst hq
      simp [State.setQueue, Queue.State.stage]
    · simp [State.setQueue, hq, hqueues]
  have hsub : List.Sublist (before ++ after) (s.queues q).inflight := by
    rw [hin]
    exact (List.sublist_cons_self r after).append_left before
  constructor
  · have hruns : ∀ q', (Queue.system (Fin n)).Run
        ((tr ++ [Event.completed q r status]).filterMap (Event.on? q'))
          (Function.update s.queues q _ q') :=
      h.runs_step (.complete status hin) rfl fun _ _ => rfl
    intro q'
    simpa [State.setQueue, hqueues] using hruns q'
  · intro q' p' hp'
    rw [hstage]
    exact h.off q' p' (by simpa [State.setQueue, hv] using hp')
  · intro q' p' hp'
    rw [hstage]
    simpa [State.setQueue, hop] using h.on q' p' (by simpa [State.setQueue, hv] using hp')
  · intro q' r' hr'
    have hold : r' ∈ (s.queues q').inflight := by
      by_cases hq : q' = q
      · subst hq
        exact hsub.subset (by simpa [State.setQueue] using hr')
      · simpa [State.setQueue, hq, hqueues] using hr'
    obtain ⟨p', x, hp', hx', hdrain', hoff⟩ := h.inflight q' r' hold
    refine ⟨p', x, by simpa [State.setQueue, hv] using hp', by simpa [State.setQueue, hop] using hx',
      ?_, by simpa [State.setQueue, hroffset] using hoff⟩
    rw [hstage]
    exact hdrain'
  · intro q'
    by_cases hq : q' = q
    · subst hq
      simpa [State.setQueue] using (hsub.map fun r => r.call.page).nodup (h.unique q')
    · simpa [State.setQueue, hq, hqueues] using h.unique q'
  · intro p' page hp'
    rw [State.setQueue, hop] at hp'
    refine (moveData_pages s q status fun hread hpp => ?_).trans (h.pages p' page hp')
    -- the page of a read belongs to a load
    rw [hpp, hpage] at hp'
    rw [hread] at hx
    rw [(transfer?_read hx).2] at hp'
    cases hp'

/-- What a return finds. -/
theorem Inv.leaves (h : Inv tr s) {d : Queue.Call} {ret : ℤ}
    (hs : Queue.Step (s.queues q) [.returned p d ret] t) :
    (s.queues q).stage p = .draining d ret ∧
      t.stage = Function.update (s.queues q).stage p .idle ∧ t.inflight = (s.queues q).inflight ∧
      (s.queues q).pending ≤ 0 ∧ s.via p = some q := by
  have hturn := hs.turn (Queue.run_ownRequests (h.runs q))
  cases hturn with
  | inside _ _ hinside | stop _ _ _ _ hinside => exact (hinside _ (List.mem_singleton_self _)).elim
  | fail _ _ _ _ _ _ hfail => exact (hfail _ (List.mem_singleton_self _)).elim
  | leave _ hdrain hstage hin hzero =>
    refine ⟨hdrain, hstage, hin, hzero, ?_⟩
    by_contra hne
    rw [h.off q p hne] at hdrain
    cases hdrain

theorem Inv.leave (h : Inv tr s) {d : Queue.Call} {ret : ℤ} (e : Concurrent.Event α)
    (hs : Queue.Step (s.queues q) [.returned p d ret] t) :
    Inv (tr ++ [.onQueue q (.returned p d ret), .returned e])
      { (s.setOp p .idle).setQueue q t with via := Function.update s.via p none } := by
  obtain ⟨hdrain, hstage, hin, hzero, hvia⟩ := h.leaves hs
  have hempty := (Queue.drained_of_leave (h.runs q) hzero).1
  have hne : ∀ {q' p'}, q' ≠ q → s.via p' = some q' → p' ≠ p := by
    rintro q' p' hq hp' rfl
    rw [hvia] at hp'
    exact hq (Option.some.inj hp').symm
  constructor
  · exact h.runs_step hs (by simp [Event.on?]) fun q' hq => by simp [Event.on?, Ne.symm hq]
  · intro q' p' hp'
    by_cases hpp : p' = p
    · subst hpp
      by_cases hq : q' = q
      · subst hq
        simp [State.setQueue, State.setOp, hstage]
      · simpa [State.setQueue, State.setOp, hq] using
          h.off q' p' (by rw [hvia]; exact fun heq => hq (Option.some.inj heq).symm)
    · simp only [Function.update_of_ne hpp] at hp'
      by_cases hq : q' = q
      · subst hq
        simpa [State.setQueue, State.setOp, hstage, hpp] using h.off q' p' hp'
      · simpa [State.setQueue, State.setOp, hq] using h.off q' p' hp'
  · intro q' p' hp'
    have hpp : p' ≠ p := by
      rintro rfl
      simp at hp'
    simp only [Function.update_of_ne hpp] at hp'
    obtain ⟨x, hx, hdev, hserves⟩ := h.on q' p' hp'
    refine ⟨x, by simpa [State.setQueue, State.setOp, Fin.val_ne_of_ne hpp] using hx, hdev, ?_⟩
    by_cases hq : q' = q
    · subst hq
      simpa [State.setQueue, State.setOp, hstage, hpp] using hserves
    · simpa [State.setQueue, State.setOp, hq] using hserves
  · intro q' r hr
    have hq : q' ≠ q := by
      rintro rfl
      simp [State.setQueue, State.setOp, hin, hempty] at hr
    simp only [State.setQueue, State.setOp, Function.update_of_ne hq] at hr ⊢
    obtain ⟨p', x, hp', hx, hdrain', hoff⟩ := h.inflight q' r hr
    have hpp := hne hq hp'
    refine ⟨p', x, by simpa [hpp] using hp', ?_, hdrain', hoff⟩
    simpa [Fin.val_ne_of_ne hpp] using hx
  · intro q'
    by_cases hq : q' = q
    · subst hq
      simp [State.setQueue, State.setOp, hin, hempty]
    · simpa [State.setQueue, State.setOp, hq] using h.unique q'
  · intro p' page hp'
    have hpp : (p' : ℕ) ≠ p := by
      intro heq
      simp [State.setQueue, State.setOp, heq, pageOf?] at hp'
    refine h.pages p' page ?_
    simpa [State.setQueue, State.setOp, hpp] using hp'

end OneQueue

theorem Inv.initial {remote : ℕ → ℕ → α} {s : State α n} (hs : (system cfg host n remote).init s) :
    Inv [] s := by
  obtain ⟨pages, rfl⟩ := hs
  constructor
  · intro q
    exact .start rfl
  · intro q p _
    rfl
  · intro q p hp
    cases hp
  · intro q r hr
    cases hr
  · intro q
    exact .nil
  · intro p page hp
    cases hp

theorem Inv.step (h : Inv tr s) (hs : Step cfg host s ev s') : Inv (tr ++ ev) s' := by
  cases hs with
  | callStore p page hidle =>
    refine h.offQueue (p := p) (h.via_none (by rw [hidle]; rfl)) rfl rfl rfl ?_ ?_ ?_ fun _ => rfl
    · intro p' hp'
      exact Function.update_of_ne hp' _ _
    · intro p' hp'
      exact Function.update_of_ne hp' _ _
    · intro page' hpage
      simpa [State.setOp, pageOf?] using hpage
  | callLoad p page hidle =>
    refine h.offQueue (p := p) (h.via_none (by rw [hidle]; rfl)) rfl rfl rfl ?_ ?_ ?_ fun _ => rfl
    · intro p' hp'
      exact Function.update_of_ne hp' _ _
    · intro p' hp'
      exact Function.update_of_ne hp' _ _
    · intro page' hpage
      simp [State.setOp, pageOf?] at hpage
  | schedule p hrun hnone hstep =>
    refine h.offQueue (p := p) (h.via_none hnone) rfl rfl rfl ?_ (fun _ _ => rfl) ?_
      fun q => on_returned q _
    · intro p' hp'
      exact Function.update_of_ne hp' _ _
    · intro page hpage
      refine h.pages p page ((stepOp_frame hstep).2 page ?_)
      simpa using hpage
  | start p cpuid hx hvia hdev hcpu hq => exact h.start hx hvia (by rw [hq])
  | internal q hi => exact h.internal hi
  | post q p hx hs => exact h.post hx hs
  | complete q status hin => exact h.complete status hin
  | leave q p hs => exact h.leave _ hs

theorem run_inv {remote : ℕ → ℕ → α} (h : (system cfg host n remote).Run tr s) : Inv tr s :=
  h.invariant (fun _ => Inv.initial) fun _ _ _ _ _ hi hs => hi.step hs

end Step

end Multiswap.Transport
