import Mathlib.Data.List.Perm.Basic
import Multiswap.Lib.StateError
import Multiswap.Rdma.Defs

/-!
# Polling a queue

What the polls of a queue do while requests of any calls are in flight on it, and
that the loops around them end if the counter counts just these requests.
-/

namespace Multiswap.Rdma

open StateError

variable {α : Type} {dev idx : ℕ} {c c' c'' : Client α}

/-- What a request is for: its operation and its page. -/
def Posted.target (w : Posted) : WrOpcode × ℕ := (w.op, w.page)

/-- A bound on the polls that some requests still need. -/
def work (ws : List Posted) : ℕ := (ws.map fun w => w.delay + 1).sum

@[simp] theorem work_nil : work [] = 0 := rfl

@[simp] theorem work_cons (w : Posted) (ws : List Posted) : work (w :: ws) = w.delay + 1 + work ws :=
  rfl

theorem length_le_work (ws : List Posted) : ws.length ≤ work ws := by
  induction ws with
  | nil => exact le_rfl
  | cons w ws ih =>
    rw [List.length_cons, work_cons]
    omega

theorem work_append (ws ws' : List Posted) : work (ws ++ ws') = work ws + work ws' := by
  simp [work]

theorem reap_work (budget : ℕ) (ws : List Posted) : work (reap budget ws).2 ≤ work ws := by
  induction budget, ws using reap.induct with
  | case1 budget => simp [reap]
  | case2 w ws => simp [reap]
  | case3 budget w ws hd due left hrec ih =>
    simp only [reap, hd, if_true, work_cons]
    omega
  | case4 budget w ws hd due left hrec ih =>
    simp only [reap, hd, if_false, work_cons]
    omega

/-- A poll that may reap something brings some completion nearer. -/
theorem reap_progress {budget : ℕ} {ws : List Posted} (hb : 0 < budget) (hws : ws ≠ []) :
    work (reap budget ws).2 < work ws := by
  cases ws with
  | nil => exact absurd rfl hws
  | cons w ws =>
    obtain ⟨budget, rfl⟩ := Nat.exists_eq_succ_of_ne_zero hb.ne'
    by_cases hd : w.delay = 0
    · have hle := reap_work budget ws
      simp only [reap, hd, if_true, work_cons]
      omega
    · have hle := reap_work (budget + 1) ws
      simp only [reap, hd, if_false, work_cons]
      omega

/-- Every request is either reaped or left. -/
theorem reap_perm (budget : ℕ) (ws : List Posted) :
    (((reap budget ws).1 ++ (reap budget ws).2).map Posted.target).Perm (ws.map Posted.target) := by
  induction budget, ws using reap.induct with
  | case1 budget => simp [reap]
  | case2 w ws => simp [reap]
  | case3 budget w ws hd due left hrec ih =>
    simp only [reap, hd, if_true, List.cons_append, List.map_cons]
    exact ih.cons _
  | case4 budget w ws hd due left hrec ih =>
    simp only [reap, hd, if_false, List.map_append, List.map_cons] at ih ⊢
    exact List.perm_middle.trans (ih.cons _)

/-! ## Completions -/

@[simp] theorem setQueue_queues (c : Client α) (dev idx : ℕ) (q : RdmaQueue) :
    (c.setQueue dev idx q).queues dev idx = q := by
  simp [Client.setQueue]

@[simp] theorem setQueue_pages (c : Client α) (dev idx : ℕ) (q : RdmaQueue) :
    (c.setQueue dev idx q).pages = c.pages := rfl

/-- A completion lowers the counter of its queue by one. -/
theorem complete_queue (w : Posted) :
    (complete dev idx c w).queues dev idx =
      { c.queues dev idx with pending := (c.queues dev idx).pending - 1 } := by
  obtain ⟨op, page, roffset, status, delay⟩ := w
  cases op <;> cases status <;>
    simp [complete, WrOpcode.done, sswapRdmaWriteDone, sswapRdmaReadDone, handlerStep, moveData,
      Client.setPage]

theorem complete_pages {w : Posted} {p : ℕ} (h : w.page ≠ p) :
    (complete dev idx c w).pages p = c.pages p := by
  obtain ⟨op, page, roffset, status, delay⟩ := w
  cases op <;> cases status <;>
    simp [complete, WrOpcode.done, sswapRdmaWriteDone, sswapRdmaReadDone, handlerStep, moveData,
      Client.setPage, Ne.symm h]

/-- A completed read marks its page, whatever its status. -/
theorem complete_read {w : Posted} (h : w.op = .rdmaRead) :
    ((complete dev idx c w).pages w.page).uptodate = true := by
  obtain ⟨op, page, roffset, status, delay⟩ := w
  cases h
  cases status <;>
    simp [complete, WrOpcode.done, sswapRdmaReadDone, handlerStep, moveData, Client.setPage]

/-- No completion takes the mark from a page. -/
theorem complete_uptodate (w : Posted) {p : ℕ} (h : (c.pages p).uptodate = true) :
    ((complete dev idx c w).pages p).uptodate = true := by
  by_cases hp : w.page = p
  · subst hp
    cases hop : w.op with
    | rdmaRead => exact complete_read hop
    | rdmaWrite =>
      obtain ⟨op, page, roffset, status, delay⟩ := w
      cases hop
      cases status <;>
        simpa [complete, WrOpcode.done, sswapRdmaWriteDone, handlerStep, moveData] using h
  · rw [complete_pages hp]
    exact h

theorem completes_queue (ws : List Posted) :
    (ws.foldl (complete dev idx) c).queues dev idx =
      { c.queues dev idx with pending := (c.queues dev idx).pending - ws.length } := by
  induction ws generalizing c with
  | nil => simp
  | cons w ws ih =>
    rw [List.foldl_cons, ih, complete_queue]
    simp only [List.length_cons, RdmaQueue.mk.injEq, and_true]
    omega

theorem completes_pages {ws : List Posted} {p : ℕ} (h : ∀ w ∈ ws, w.page ≠ p) :
    (ws.foldl (complete dev idx) c).pages p = c.pages p := by
  induction ws generalizing c with
  | nil => rfl
  | cons w ws ih =>
    rw [List.foldl_cons, ih fun w' hw' => h w' (List.mem_cons_of_mem _ hw')]
    exact complete_pages (h w List.mem_cons_self)

theorem completes_uptodate {ws : List Posted} {p : ℕ}
    (h : (c.pages p).uptodate = true ∨ ∃ w ∈ ws, w.target = (.rdmaRead, p)) :
    ((ws.foldl (complete dev idx) c).pages p).uptodate = true := by
  induction ws generalizing c with
  | nil => simpa using h
  | cons w ws ih =>
    rw [List.foldl_cons]
    apply ih
    rcases h with hup | ⟨w', hw', htarget⟩
    · exact .inl (complete_uptodate w hup)
    · rcases List.mem_cons.mp hw' with rfl | hw'
      · obtain ⟨hop, rfl⟩ := Prod.mk.inj htarget
        exact .inl (complete_read hop)
      · exact .inr ⟨w', hw', htarget⟩

/-! ## Polls -/

/-- The page is marked up to date, or a read of it is in flight. -/
def Marks (dev idx : ℕ) (c : Client α) (p : ℕ) : Prop :=
  (c.pages p).uptodate = true ∨ ∃ w ∈ (c.queues dev idx).posted, w.target = (.rdmaRead, p)

/-- What any number of polls may have done. -/
structure Polled (dev idx : ℕ) (c c' : Client α) : Prop where
  counter : (c'.queues dev idx).pending - (c'.queues dev idx).posted.length =
    (c.queues dev idx).pending - (c.queues dev idx).posted.length
  length : (c'.queues dev idx).posted.length ≤ (c.queues dev idx).posted.length
  work : work (c'.queues dev idx).posted ≤ work (c.queues dev idx).posted
  inflight : ∀ w' ∈ (c'.queues dev idx).posted,
    ∃ w ∈ (c.queues dev idx).posted, w.target = w'.target
  pages : ∀ p, (∀ w ∈ (c.queues dev idx).posted, w.page ≠ p) → c'.pages p = c.pages p
  marks : ∀ p, Marks dev idx c p → Marks dev idx c' p

theorem Polled.refl (c : Client α) : Polled dev idx c c where
  counter := rfl
  length := le_rfl
  work := le_rfl
  inflight w hw := ⟨w, hw, rfl⟩
  pages _ _ := rfl
  marks _ := id

/-- Pages of no request in flight stay those of no request in flight. -/
theorem Polled.other (h : Polled dev idx c c') {p : ℕ}
    (hp : ∀ w ∈ (c.queues dev idx).posted, w.page ≠ p) :
    ∀ w ∈ (c'.queues dev idx).posted, w.page ≠ p := by
  intro w' hw'
  obtain ⟨w, hw, htarget⟩ := h.inflight w' hw'
  rw [← (Prod.mk.inj htarget).2]
  exact hp w hw

theorem Polled.trans (h : Polled dev idx c c') (h' : Polled dev idx c' c'') :
    Polled dev idx c c'' where
  counter := h'.counter.trans h.counter
  length := h'.length.trans h.length
  work := h'.work.trans h.work
  inflight w hw := by
    obtain ⟨w₁, hw₁, heq₁⟩ := h'.inflight w hw
    obtain ⟨w₂, hw₂, heq₂⟩ := h.inflight w₁ hw₁
    exact ⟨w₂, hw₂, heq₂.trans heq₁⟩
  pages p hp := (h'.pages p (h.other hp)).trans (h.pages p hp)
  marks p hp := h'.marks p (h.marks p hp)

/-- The client after a poll. -/
def Client.polled (c : Client α) (dev idx budget : ℕ) : Client α :=
  let r := reap budget (c.queues dev idx).posted
  r.1.foldl (complete dev idx) (c.setQueue dev idx { c.queues dev idx with posted := r.2 })

theorem ibProcessCqDirect_eq (dev idx budget : ℕ) (c : Client α) :
    ibProcessCqDirect dev idx budget c =
      .ok (reap budget (c.queues dev idx).posted).1.length (c.polled dev idx budget) := by
  simp [ibProcessCqDirect, Client.polled]

theorem polled_queue (dev idx budget : ℕ) (c : Client α) :
    (c.polled dev idx budget).queues dev idx =
      ⟨(c.queues dev idx).pending - (reap budget (c.queues dev idx).posted).1.length,
        (reap budget (c.queues dev idx).posted).2⟩ := by
  rw [Client.polled, completes_queue, setQueue_queues]

theorem polled_polled (dev idx budget : ℕ) (c : Client α) :
    Polled dev idx c (c.polled dev idx budget) := by
  have hperm := reap_perm budget (c.queues dev idx).posted
  have hlen := hperm.length_eq
  simp only [List.map_append, List.length_append, List.length_map] at hlen
  have hmem : ∀ t, (∃ w ∈ (c.queues dev idx).posted, w.target = t) ↔
      (∃ w ∈ (reap budget (c.queues dev idx).posted).1, w.target = t) ∨
        ∃ w ∈ (reap budget (c.queues dev idx).posted).2, w.target = t := by
    intro t
    have ht := hperm.mem_iff (a := t)
    simpa only [List.mem_map, List.map_append, List.mem_append] using ht.symm
  constructor
  · rw [polled_queue]
    dsimp only
    omega
  · rw [polled_queue]
    dsimp only
    omega
  · rw [polled_queue]
    exact reap_work budget _
  · intro w' hw'
    rw [polled_queue] at hw'
    exact (hmem w'.target).mpr (.inr ⟨w', hw', rfl⟩)
  · intro p hp
    rw [Client.polled, completes_pages, setQueue_pages]
    intro w hw
    obtain ⟨w', hw', htarget⟩ := (hmem w.target).mpr (.inl ⟨w, hw, rfl⟩)
    rw [← (Prod.mk.inj htarget).2]
    exact hp w' hw'
  · rintro p (hup | hread)
    · exact .inl (completes_uptodate (.inl hup))
    · rcases (hmem _).mp hread with hdue | hleft
      · exact .inl (completes_uptodate (.inr hdue))
      · refine .inr ?_
        rw [polled_queue]
        exact hleft

/-! ## Loops -/

/-- Whatever the counter says, a loop does nothing but poll. -/
theorem drainQueue_polled (dev idx fuel : ℕ) (c : Client α) :
    Polled dev idx c (finalState (drainQueue dev idx fuel c)) := by
  induction fuel generalizing c with
  | zero =>
    by_cases hp : (c.queues dev idx).pending > 0 <;> simp [drainQueue, hp, Polled.refl]
  | succ fuel ih =>
    by_cases hp : (c.queues dev idx).pending > 0
    · simpa [drainQueue, hp, ibProcessCqDirect_eq] using
        (polled_polled dev idx 16 c).trans (ih (c.polled dev idx 16))
    · simp [drainQueue, hp, Polled.refl]

theorem pollTarget_polled (dev idx target fuel completed : ℕ) (c : Client α) :
    Polled dev idx c (finalState (pollTarget dev idx target fuel completed c)) := by
  induction fuel generalizing completed c with
  | zero =>
    by_cases hp : completed < target ∧ (c.queues dev idx).pending > 0 <;>
      simp [pollTarget, hp, Polled.refl]
  | succ fuel ih =>
    by_cases hp : completed < target ∧ (c.queues dev idx).pending > 0
    · simpa [pollTarget, hp, ibProcessCqDirect_eq] using
        (polled_polled dev idx (target - completed) c).trans (ih _ (c.polled dev idx _))
    · simp [pollTarget, hp, Polled.refl]

theorem backPressure_polled (dev idx limit target fuel : ℕ) (c : Client α) :
    Polled dev idx c (finalState (backPressure dev idx limit target fuel c)) := by
  induction fuel generalizing c with
  | zero =>
    by_cases hp : (c.queues dev idx).pending ≥ limit <;> simp [backPressure, hp, Polled.refl]
  | succ fuel ih =>
    by_cases hp : (c.queues dev idx).pending ≥ limit
    · by_cases hbug : (c.queues dev idx).pending > qpMaxSendWr
      · simp [backPressure, hp, hbug, Polled.refl]
      · have hpoll := pollTarget_polled dev idx target fuel 0 c
        cases hrun : pollTarget dev idx target fuel 0 c with
        | ok n c₁ =>
          rw [hrun] at hpoll
          simpa [backPressure, hp, hbug, hrun] using hpoll.trans (ih c₁)
        | error e c₁ =>
          rw [hrun] at hpoll
          simpa [backPressure, hp, hbug, hrun] using hpoll
    · simp [backPressure, hp, Polled.refl]

/-- The counter counts the requests in flight. -/
def Exact (dev idx : ℕ) (c : Client α) : Prop :=
  (c.queues dev idx).pending = (c.queues dev idx).posted.length

theorem Polled.exact (h : Polled dev idx c c') (hc : Exact dev idx c) : Exact dev idx c' := by
  have hcounter := h.counter
  rw [Exact] at hc ⊢
  omega

theorem Exact.pending_pos (h : Exact dev idx c) :
    (c.queues dev idx).pending > 0 ↔ (c.queues dev idx).posted ≠ [] := by
  rw [h, ← List.length_pos_iff]
  omega

/-- With an exact counter, `drain_queue` ends with nothing in flight. -/
theorem drainQueue_exact {fuel : ℕ} (h : Exact dev idx c)
    (hfuel : work (c.queues dev idx).posted ≤ fuel) :
    ∃ c', drainQueue dev idx fuel c = .ok () c' ∧ Polled dev idx c c' ∧
      (c'.queues dev idx).posted = [] := by
  induction fuel generalizing c with
  | zero =>
    have hnil : (c.queues dev idx).posted = [] :=
      List.length_eq_zero_iff.mp (Nat.le_zero.mp ((length_le_work _).trans hfuel))
    have hp : ¬ (c.queues dev idx).pending > 0 := by simp [h.pending_pos, hnil]
    exact ⟨c, by simp [drainQueue, hp], .refl c, hnil⟩
  | succ fuel ih =>
    by_cases hp : (c.queues dev idx).pending > 0
    · have hpolled := polled_polled dev idx 16 c
      have hless : work ((c.polled dev idx 16).queues dev idx).posted <
          work (c.queues dev idx).posted := by
        rw [polled_queue]
        exact reap_progress (by decide) (h.pending_pos.mp hp)
      obtain ⟨c', hrun, hc', hnil⟩ := ih (hpolled.exact h) (by omega)
      exact ⟨c', by simp [drainQueue, hp, ibProcessCqDirect_eq, hrun], hpolled.trans hc', hnil⟩
    · refine ⟨c, by simp [drainQueue, hp], .refl c, ?_⟩
      by_contra hne
      exact hp (h.pending_pos.mpr hne)

/-- With an exact counter, `poll_target` ends, nearer to an empty queue unless
there was nothing to do. -/
theorem pollTarget_exact (target completed : ℕ) {fuel : ℕ} (h : Exact dev idx c)
    (hfuel : work (c.queues dev idx).posted ≤ fuel) :
    ∃ n c', pollTarget dev idx target fuel completed c = .ok n c' ∧ Polled dev idx c c' ∧
      (completed < target → (c.queues dev idx).posted ≠ [] →
        work (c'.queues dev idx).posted < work (c.queues dev idx).posted) := by
  induction fuel generalizing c completed with
  | zero =>
    have hnil : (c.queues dev idx).posted = [] :=
      List.length_eq_zero_iff.mp (Nat.le_zero.mp ((length_le_work _).trans hfuel))
    have hp : ¬ (c.queues dev idx).pending > 0 := by simp [h.pending_pos, hnil]
    exact ⟨completed, c, by simp [pollTarget, hp], .refl c, fun _ hne => absurd hnil hne⟩
  | succ fuel ih =>
    by_cases hp : completed < target ∧ (c.queues dev idx).pending > 0
    · have hpolled := polled_polled dev idx (target - completed) c
      have hless : work ((c.polled dev idx (target - completed)).queues dev idx).posted <
          work (c.queues dev idx).posted := by
        rw [polled_queue]
        exact reap_progress (by omega) (h.pending_pos.mp hp.2)
      obtain ⟨n, c', hrun, hc', -⟩ := ih (completed +
        (reap (target - completed) (c.queues dev idx).posted).1.length) (hpolled.exact h) (by omega)
      refine ⟨n, c', by simp [pollTarget, hp, ibProcessCqDirect_eq, hrun], hpolled.trans hc', ?_⟩
      exact fun _ _ => lt_of_le_of_lt hc'.work hless
    · refine ⟨completed, c, by simp [pollTarget, hp], .refl c, fun hlt hne => ?_⟩
      exact absurd ⟨hlt, h.pending_pos.mpr hne⟩ hp

/-- With an exact counter that is in bounds, the back pressure ends. -/
theorem backPressure_exact (limit target : ℕ) {fuel : ℕ} (h : Exact dev idx c)
    (hroom : (c.queues dev idx).posted.length ≤ qpMaxSendWr) (hlimit : 0 < limit)
    (htarget : 0 < target) (hfuel : work (c.queues dev idx).posted < fuel) :
    ∃ c', backPressure dev idx limit target fuel c = .ok () c' ∧ Polled dev idx c c' := by
  induction fuel generalizing c with
  | zero => omega
  | succ fuel ih =>
    by_cases hp : (c.queues dev idx).pending ≥ limit
    · have hbug : ¬ (c.queues dev idx).pending > qpMaxSendWr := by
        rw [h]
        omega
      have hne : (c.queues dev idx).posted ≠ [] := h.pending_pos.mp (by omega)
      obtain ⟨n, c₁, hrun, hc₁, hless⟩ :=
        pollTarget_exact target 0 h (Nat.le_of_lt_succ hfuel)
      have hlt := hless htarget hne
      obtain ⟨c₂, hrest, hc₂⟩ := ih (hc₁.exact h) (hc₁.length.trans hroom) (by omega)
      exact ⟨c₂, by simp [backPressure, hp, hbug, hrun, hrest], hc₁.trans hc₂⟩
    · exact ⟨c, by simp [backPressure, hp], .refl c⟩

end Multiswap.Rdma
