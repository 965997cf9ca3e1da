import Multiswap.Concurrent.Safety

/-!
# Stores and loads round trip

The interleaved calls implement a map from pageids to page contents: a load of a
stored pageid delivers what the last completed store of that pageid was given,
and no call gets stuck.
-/

namespace Multiswap.Concurrent

variable {α : Type} {cfg : Config} {n : ℕ} {s s' : State α} {p : ℕ} {tr ev : List (Event α)}

/-- The contents given to the last completed store of a pageid. -/
def lastStored (p : ℕ) (tr : List (Event α)) : Option α :=
  tr.foldl (fun acc e => match e with
    | .stored q page _ => if q = p then some page else acc
    | .loaded .. => acc) none

@[simp] theorem lastStored_nil (p : ℕ) : lastStored p ([] : List (Event α)) = none := rfl

theorem lastStored_stored (p q : ℕ) (page : α) (ret : ℤ) (tr : List (Event α)) :
    lastStored p (tr ++ [.stored q page ret]) = if q = p then some page else lastStored p tr := by
  simp [lastStored]

theorem lastStored_loaded (p q : ℕ) (ret : ℤ) (d : Option α) (tr : List (Event α)) :
    lastStored p (tr ++ [.loaded q ret d]) = lastStored p tr := by
  simp [lastStored]

/-- A store of the pageid is running. -/
def Op.storing : Op α → Bool
  | .idle => false
  | .loadLookup => false
  | .loadRead .. => false
  | _ => true

/-- The remote memory holds the last stored contents of every pageid that is not
being stored, in the cell that its mapping names. -/
def Remembers (tr : List (Event α)) (s : State α) : Prop :=
  ∀ p page, lastStored p tr = some page → (s.op p).storing = false →
    ∃ t x, s.sched.mappingOf p = some (t, x) ∧ s.remote t (x * pageSize) = page

/-- A step of the call of `p` that neither writes nor ends a store. -/
theorem Remembers.quiet (h : Remembers tr s) {sched : Scheduler} {op : Op α}
    (hmap : ∀ q, q ≠ p → sched.mappingOf q = s.sched.mappingOf q)
    (hp : op.storing = false → (s.op p).storing = false ∧ sched.mappingOf p = s.sched.mappingOf p) :
    Remembers tr ⟨sched, s.remote, Function.update s.op p op⟩ := by
  intro q page hq hstoring
  dsimp only at hstoring ⊢
  by_cases hqp : q = p
  · subst hqp
    rw [Function.update_self] at hstoring
    obtain ⟨hs, hm⟩ := hp hstoring
    obtain ⟨t, x, hmap, hrem⟩ := h q page hq hs
    exact ⟨t, x, hm.trans hmap, hrem⟩
  · rw [Function.update_of_ne hqp] at hstoring
    obtain ⟨t, x, hmq, hrem⟩ := h q page hq hstoring
    exact ⟨t, x, (hmap q hqp).trans hmq, hrem⟩

/-- A transfer to a cell that the storing pageid owns. -/
theorem Remembers.write (h : Remembers tr s) (hi : Inv cfg n s) {page : α} {type slot : ℕ}
    (hop : s.op p = .storeWrite page type (slot * pageSize))
    (hm : s.sched.mappingOf p = some (type, slot)) :
    Remembers (tr ++ [.stored p page 0]) ⟨s.sched,
      Function.update s.remote type (Function.update (s.remote type) (slot * pageSize) page),
      Function.update s.op p .idle⟩ := by
  intro q page' hq hstoring
  rw [lastStored_stored] at hq
  dsimp only at hstoring ⊢
  by_cases hqp : q = p
  · subst hqp
    rw [if_pos rfl] at hq
    exact ⟨type, slot, hm, by simpa using hq⟩
  · rw [if_neg (Ne.symm hqp)] at hq
    rw [Function.update_of_ne hqp] at hstoring
    obtain ⟨t, x, hmq, hrem⟩ := h q page' hq hstoring
    refine ⟨t, x, hmq, ?_⟩
    have hne : (t, x) ≠ (type, slot) := by
      intro heq
      refine hqp (hi.rep.unique q p (type, slot) ?_ ?_)
      · cases hopq : s.op q <;> simp only [hopq, Op.storing, Bool.true_eq_false] at hstoring <;>
          simp [State.held, State.recorded, hopq, Op.reserved, Op.released, hmq, heq]
      · simp [State.held, State.recorded, hop, Op.reserved, Op.released, hm]
    by_cases ht : t = type
    · subst ht
      have hx : x * pageSize ≠ slot * pageSize := by
        intro h
        exact hne (by rw [Nat.eq_of_mul_eq_mul_right (by decide) h])
      rw [Function.update_self, Function.update_of_ne hx]
      exact hrem
    · rw [Function.update_of_ne ht]
      exact hrem

theorem Remembers.move (h : Remembers tr s) (hi : Inv cfg n s) (hm : Move cfg s p ev s') :
    Remembers (tr ++ ev) s' := by
  cases hm with
  | write hop hm => exact h.write hi hop hm
  | read hop =>
    intro q page hq hstoring
    rw [lastStored_loaded] at hq
    have hquiet : Remembers tr ⟨s.sched, s.remote, Function.update s.op p .idle⟩ :=
      h.quiet (fun _ _ => rfl) fun _ => ⟨by rw [hop]; rfl, rfl⟩
    exact hquiet q page hq hstoring
  | lookup hop _ _ =>
    rw [List.append_nil]
    exact h.quiet (fun _ _ => rfl) fun _ => ⟨by rw [hop]; rfl, rfl⟩
  | record hop =>
    rw [List.append_nil]
    refine h.quiet (fun q hq => ?_) fun hs => by cases hs
    rw [Scheduler.xaStore_mappingOf, if_neg hq]
  | _ =>
    rw [List.append_nil]
    exact h.quiet (fun _ _ => rfl) fun hs => by cases hs

theorem Remembers.step (h : Remembers tr s) (hf : Fits cfg n) (hi : Inv cfg n s)
    (hs : Step cfg n s ev s') : Remembers (tr ++ ev) s' := by
  cases hs with
  | callStore p page hp hidle =>
    rw [List.append_nil]
    exact h.quiet (fun _ _ => rfl) fun hs => by cases hs
  | callLoad p hp hidle =>
    rw [List.append_nil]
    exact h.quiet (fun _ _ => rfl) fun _ => ⟨by rw [hidle]; rfl, rfl⟩
  | advance p hrun hstep => exact h.move hi (hi.advance_move hf hrun hstep)

theorem run_remembers (hf : Fits cfg n) {remote : ℕ → ℕ → α} (h : (system cfg n remote).Run tr s) :
    Remembers tr s :=
  h.invariant (I := Remembers) (fun s _ p page hp => by simp at hp) fun tr s ev s' hr hrem hs =>
    hrem.step hf (reachable_inv hf ⟨tr, hr⟩) hs

/-- A load that returns delivers the contents of the cell that the mapping of its
pageid names. -/
theorem Move.loaded {q : ℕ} (hm : Move cfg s q ev s') (hok : OpOk (s.sched.mappingOf p) (s.op p))
    {ret : ℤ} {d : Option α} (he : .loaded p ret d ∈ ev) :
    ev = [.loaded p ret d] ∧ ret = 0 ∧ (s.op p).storing = false ∧
      ∀ t x, s.sched.mappingOf p = some (t, x) → d = some (s.remote t (x * pageSize)) := by
  cases hm with
  | write => simp at he
  | read hop =>
    simp only [List.mem_singleton, Event.loaded.injEq] at he
    obtain ⟨rfl, rfl, rfl⟩ := he
    rw [hop] at hok
    refine ⟨rfl, rfl, by rw [hop]; rfl, fun t x hm => ?_⟩
    obtain ⟨ht, hx⟩ := hok.2 t x hm
    rw [ht, hx]
  | _ => simp at he

theorem Inv.loaded_step (hi : Inv cfg n s) (hf : Fits cfg n) {ret : ℤ} {d : Option α}
    (hs : Step cfg n s ev s') (he : .loaded p ret d ∈ ev) :
    ev = [.loaded p ret d] ∧ ret = 0 ∧ (s.op p).storing = false ∧
      ∀ t x, s.sched.mappingOf p = some (t, x) → d = some (s.remote t (x * pageSize)) := by
  cases hs with
  | callStore => simp at he
  | callLoad => simp at he
  | advance q hrun hstep => exact (hi.advance_move hf hrun hstep).loaded (hi.ops p) he

/-- The number of own steps after which a running call has returned. -/
def rank (cfg : Config) (p : ℕ) : Op α → ℕ
  | .idle => 0
  | .storeLoad .. => cfg.nrRemoteMaps (p % 2) + 4
  | .storeClear .. => cfg.nrRemoteMaps (p % 2) + 3
  | .storeProbe _ _ _ i _ => cfg.nrRemoteMaps (p % 2) - i + 2
  | .storeRecord .. => 2
  | .storeWrite .. => 1
  | .loadLookup => 2
  | .loadRead .. => 1

theorem Move.rank_lt (hm : Move cfg s p ev s') : rank cfg p (s'.op p) < rank cfg p (s.op p) := by
  cases hm <;> simp only [Function.update_self, rank, *] <;> omega

/-- The next step of a running call never faults, except for a load of a pageid
without a mapping under `CONFIG_DEBUG_VM`. -/
theorem Inv.advance_ok (hi : Inv cfg n s) (hf : Fits cfg n) (hrun : s.op p ≠ .idle)
    (hload : s.op p = .loadLookup → s.sched.mappingOf p ≠ none) :
    ∃ r, stepOp cfg p s = .ok r := by
  have hp := hi.lt_of_running hrun
  have hr := hf.inRange p hp
  have hok := hi.ops p
  unfold stepOp
  cases hop : s.op p with
  | idle => exact absurd hop hrun
  | storeLoad page second flags =>
    simp only [spaceOf_ok hr, bind, Except.bind, pure, Except.pure]
    exact ⟨_, rfl⟩
  | storeClear page second flags entry =>
    rw [hop] at hok
    obtain ⟨_, _, hne, hentry⟩ := hok
    cases hm : s.sched.mappingOf p with
    | none => exact absurd (decodeEntry_eq_none.mp (hentry.trans hm)) hne
    | some l =>
      have hrel := releaseOld_ok (s := s.sched) (hentry.trans hm) (hi.rep.entries p l.1 l.2 hm)
      simp only [hrel, bind, Except.bind, pure, Except.pure]
      exact ⟨_, rfl⟩
  | storeProbe page second flags i offset =>
    rw [hop] at hok
    have hi' := (hi.probe_lt hf hp hop).2
    have hnode : attemptNode p second = p % 2 := by simp [attemptNode, hok.1]
    have hmap : mapAt cfg (attemptNode p second) 0 = .ok () :=
      hnode ▸ mapAt_ok (Nat.mod_lt _ (by decide)) (by omega)
    simp only [hmap, bind, Except.bind, pure, Except.pure]
    exact ⟨_, rfl⟩
  | storeRecord page second flags slot => exact ⟨_, rfl⟩
  | storeWrite page type roffset =>
    dsimp only
    split <;> exact ⟨_, rfl⟩
  | loadLookup =>
    cases hm : s.sched.mappingOf p with
    | none => exact absurd hm (hload hop)
    | some l =>
      simp only [sswapSchedulerRead, sswapGetMapping_some hr hm, bind, Except.bind, pure, Except.pure]
      exact ⟨_, rfl⟩
  | loadRead type roffset =>
    dsimp only
    split <;> exact ⟨_, rfl⟩

/-- Every load that returns after a store of its pageid has completed returns
success and delivers what that store was given; and a running load of a stored
pageid can always take its next step, which brings it nearer to its return. -/
theorem store_load_round_trip (debugVm : Bool) {remote : ℕ → ℕ → α}
    (h : (system (initScheduler debugVm) (remoteBufSize >>> pageShift) remote).Run tr s) (p : ℕ) :
    (∀ pre post ret d page, tr = pre ++ .loaded p ret d :: post → lastStored p pre = some page →
      ret = 0 ∧ d = some page) ∧
    (∀ page, lastStored p tr = some page → s.op p ≠ .idle →
      ∃ op sched remote' ev, stepOp (initScheduler debugVm) p s = .ok (op, sched, remote', ev) ∧
        rank (initScheduler debugVm) p op < rank (initScheduler debugVm) p (s.op p)) := by
  have hf := fits_initScheduler debugVm (le_refl (remoteBufSize >>> pageShift))
  refine ⟨fun pre post ret d page ht hlast => ?_, fun page hlast hrun => ?_⟩
  · obtain ⟨tr₀, ev₀, s₀, s₁, k, hr, hs, hk, hpre⟩ := h.split_event ht
    have hi := reachable_inv hf ⟨tr₀, hr⟩
    obtain ⟨hev, hret, hstoring, hd⟩ := hi.loaded_step hf hs (List.mem_of_getElem? hk)
    have hk0 : k = 0 := by
      have hlen := (List.getElem?_eq_some_iff.mp hk).1
      rw [hev, List.length_singleton] at hlen
      omega
    rw [hk0, List.take_zero, List.append_nil] at hpre
    obtain ⟨t, x, hm, hrem⟩ := run_remembers hf hr p page (hpre ▸ hlast) hstoring
    exact ⟨hret, by rw [hd t x hm, hrem]⟩
  · have hi := reachable_inv hf ⟨tr, h⟩
    have hload : s.op p = .loadLookup → s.sched.mappingOf p ≠ none := by
      intro hop hnone
      obtain ⟨t, x, hm, _⟩ := run_remembers hf h p page hlast (by rw [hop]; rfl)
      rw [hnone] at hm
      cases hm
    obtain ⟨⟨op, sched, remote', ev'⟩, hok⟩ := hi.advance_ok hf hrun hload
    have hlt := (hi.advance_move hf hrun hok).rank_lt
    dsimp only at hlt
    rw [Function.update_self] at hlt
    exact ⟨op, sched, remote', ev', hok, hlt⟩

/-- Of two overlapping stores, one of which takes the slot that the other has released, each
is read back. -/
theorem store_load_round_trip_overlapping : ∃ (s : State ℕ) (ret ret' : ℤ) (d d' : Option ℕ),
    (system (initScheduler false) (remoteBufSize >>> pageShift) fun _ _ => 0).Run
      [.stored 1 7 0, .stored 3 9 0, .stored 1 8 0, .loaded 1 ret d, .loaded 3 ret' d'] s ∧
        (ret = 0 ∧ d = some 8) ∧ (ret' = 0 ∧ d' = some 9) := by
  obtain ⟨-, s, -, -, -, hs, -⟩ := overlapping_run (n := remoteBufSize >>> pageShift) (by decide)
  have hone := (store_load_round_trip false hs 1).1 [.stored 1 7 0, .stored 3 9 0, .stored 1 8 0]
    [.loaded 3 0 (some 9)] 0 (some 8) 8 rfl rfl
  have hthree := (store_load_round_trip false hs 3).1
    [.stored 1 7 0, .stored 3 9 0, .stored 1 8 0, .loaded 1 0 (some 8)] [] 0 (some 9) 9 rfl rfl
  exact ⟨s, 0, 0, some 8, some 9, hs, hone, hthree⟩

end Multiswap.Concurrent
