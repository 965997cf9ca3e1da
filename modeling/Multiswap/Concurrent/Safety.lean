import Multiswap.Concurrent.Invariant
import Multiswap.Concurrent.Solo
import Multiswap.Server.Defs

/-!
# Safety of the running scheduler

Every atomic step of a reachable state is a `Move`, so the ownership invariant
holds throughout. The bounds on the slots and the representation invariant of
the running system are read off it.
-/

namespace Multiswap.Concurrent

variable {α : Type} {cfg : Config} {n : ℕ} {s s' : State α} {p : ℕ}

/-- A round of the search inside the groups of the preferred node. -/
theorem probeStep_eq {page : α} {second : Bool} {flags : RemoteMappingFlags} {i offset : ℕ}
    {sched : Scheduler} (hs : second = false) (hfl : flags.mappingFull = false)
    (hi : i < cfg.nrRemoteMaps (p % 2))
    (hnr : (sched.remoteMap (p % 2) 0).nrPages = remoteAddressSpacePages) :
    probeStep cfg p page second flags i offset sched =
      if (sched.remoteMap (p % 2) i).freePages ≠ 0 then
        (.storeRecord page second { flags with mappingSuccess := true }
          (BitSearch.firstZero (sched.remoteMap (p % 2) i).mapping remoteAddressSpacePages + offset),
          sched.setBit (p % 2) i
            (BitSearch.firstZero (sched.remoteMap (p % 2) i).mapping remoteAddressSpacePages))
      else (.storeProbe page second flags (i + 1) (u32 (offset + remoteAddressSpacePages)), sched) := by
  subst hs
  simp only [probeStep, attemptNode, Bool.false_eq_true, if_false, hi, if_true, hnr, Scheduler.probe_eq,
    afterSelect, hfl]
  by_cases hfree : (sched.remoteMap (p % 2) i).freePages = 0 <;> simp [hfree]

/-- What a probe does in a state that satisfies the invariant. -/
theorem Inv.probe_move (h : Inv cfg n s) (hf : Fits cfg n) {page : α} {second : Bool}
    {flags : RemoteMappingFlags} {i offset : ℕ} {op : Op α} {sched : Scheduler}
    {remote : ℕ → ℕ → α} {ev : List (Event α)} (hop : s.op p = .storeProbe page second flags i offset)
    (hstep : stepOp cfg p s = .ok (op, sched, remote, ev)) :
    Move cfg s p ev ⟨sched, remote, Function.update s.op p op⟩ := by
  have hp : p < n := h.lt_of_running (by rw [hop]; nofun)
  have ht : p % 2 < 2 := Nat.mod_lt _ (by decide)
  have hok := h.ops p
  rw [hop] at hok
  obtain ⟨hsec, hfull, hoff⟩ := hok
  obtain ⟨_, hi⟩ := h.probe_lt hf hp hop
  have hnode : attemptNode p second = p % 2 := by simp [attemptNode, hsec]
  have hnr := h.rep.nrPages (p % 2) 0 ht (by omega)
  have hmapAt : mapAt cfg (p % 2) 0 = .ok () := mapAt_ok ht (by omega)
  simp only [stepOp, hop, hnode, hmapAt, bind, Except.bind, pure, Except.pure,
    probeStep_eq hsec hfull hi hnr] at hstep
  by_cases hfree : (s.sched.remoteMap (p % 2) i).freePages = 0
  · simp only [hfree, ne_eq, not_true_eq_false, if_false, Except.ok.injEq, Prod.mk.injEq] at hstep
    obtain ⟨rfl, rfl, rfl, rfl⟩ := hstep
    -- the cursor is still inside the node, so the 32-bit offset does not wrap
    have hskip := h.skip hp hop hi hfree
    have hlt := (hskip.probe_lt hf hp (Function.update_self p _ s.op)).1
    have hsmall : n ≤ 2097152 := hf.small
    have hoffset : u32 (offset + remoteAddressSpacePages) = (i + 1) * remoteAddressSpacePages := by
      simp only [remoteAddressSpacePages_eq] at hoff hlt ⊢
      rw [u32_of_lt (by omega)]
      omega
    rw [hoffset]
    exact .skip hop hi hfree
  · simp only [hfree, ne_eq, not_false_eq_true, if_true, Except.ok.injEq, Prod.mk.injEq] at hstep
    obtain ⟨rfl, rfl, rfl, rfl⟩ := hstep
    rw [hoff, Nat.add_comm _ (i * remoteAddressSpacePages)]
    exact .take hop hi hfree rfl

/-- What the lookup of a load does in a state that satisfies the invariant. -/
theorem Inv.lookup_move (h : Inv cfg n s) (hf : Fits cfg n) {op : Op α} {sched : Scheduler}
    {remote : ℕ → ℕ → α} {ev : List (Event α)} (hop : s.op p = .loadLookup)
    (hstep : stepOp cfg p s = .ok (op, sched, remote, ev)) :
    Move cfg s p ev ⟨sched, remote, Function.update s.op p op⟩ := by
  have hp : p < n := h.lt_of_running (by rw [hop]; nofun)
  have hr := hf.inRange p hp
  simp only [stepOp, hop, sswapSchedulerRead] at hstep
  cases hm : s.sched.mappingOf p with
  | none =>
    rw [sswapGetMapping_none hr hm] at hstep
    split at hstep
    · simp [bind, Except.bind] at hstep
    · simp only [bind, Except.bind, pure, Except.pure, Except.ok.injEq, Prod.mk.injEq] at hstep
      obtain ⟨rfl, rfl, rfl, rfl⟩ := hstep
      exact .lookup hop (by simp) fun t x hx => by rw [hm] at hx; cases hx
  | some l =>
    obtain ⟨t, x⟩ := l
    have hx : x < 2097152 := h.held_small hf (p := p) (t := t) (by
      simp [State.held, State.recorded, hop, Op.reserved, Op.released, hm])
    rw [sswapGetMapping_some hr hm, slotOffset_eq (by omega : x < 2 ^ 52)] at hstep
    simp only [bind, Except.bind, pure, Except.pure, Except.ok.injEq, Prod.mk.injEq] at hstep
    obtain ⟨rfl, rfl, rfl, rfl⟩ := hstep
    refine .lookup hop (by simp only [remoteBufSize_eq]; omega) fun t' y hy => ?_
    rw [hm] at hy
    simp only [Option.some.injEq, Prod.mk.injEq] at hy
    exact ⟨hy.1, by rw [hy.2, pageSize_eq]⟩

/-- Say once what an atomic step does in a state that satisfies the invariant. -/
theorem Inv.advance_move (h : Inv cfg n s) (hf : Fits cfg n) {op : Op α} {sched : Scheduler}
    {remote : ℕ → ℕ → α} {ev : List (Event α)} (hrun : s.op p ≠ .idle)
    (hstep : stepOp cfg p s = .ok (op, sched, remote, ev)) :
    Move cfg s p ev ⟨sched, remote, Function.update s.op p op⟩ := by
  have hp := h.lt_of_running hrun
  have hr := hf.inRange p hp
  have hok := h.ops p
  cases hop : s.op p with
  | idle => exact absurd hop hrun
  | storeLoad page second flags =>
    simp only [stepOp, hop, spaceOf_ok hr, bind, Except.bind, pure, Except.pure, Except.ok.injEq,
      Prod.mk.injEq] at hstep
    obtain ⟨rfl, rfl, rfl, rfl⟩ := hstep
    by_cases he : s.sched.xaLoad (p >>> remoteAddressSpaceShift) p = 0
    · rw [if_neg (by simpa using he)]
      exact .enter hop (decodeEntry_eq_none.mpr he)
    · rw [if_pos he]
      exact .found hop he rfl
  | storeClear page second flags entry =>
    rw [hop] at hok
    obtain ⟨_, _, hne, hentry⟩ := hok
    cases hm : s.sched.mappingOf p with
    | none => exact absurd (decodeEntry_eq_none.mp (hentry.trans hm)) hne
    | some l =>
      obtain ⟨t, x⟩ := l
      have hrel := releaseOld_ok (s := s.sched) (hentry.trans hm) (h.rep.entries p t x hm)
      simp only [stepOp, hop, hrel, bind, Except.bind, pure, Except.pure, Except.ok.injEq,
        Prod.mk.injEq] at hstep
      obtain ⟨rfl, rfl, rfl, rfl⟩ := hstep
      exact .release hop hm
  | storeProbe page second flags i offset => exact h.probe_move hf hop hstep
  | storeRecord page second flags slot =>
    rw [hop] at hok
    have hnode : attemptNode p second = p % 2 := by simp [attemptNode, hok.1]
    have hsmall : slot < 2097152 := h.held_small hf (p := p) (t := p % 2) (by
      simp [State.held, hop, Op.reserved, hnode])
    simp only [stepOp, hop, hnode, slotOffset_eq (by omega : slot < 2 ^ 52), Except.ok.injEq,
      Prod.mk.injEq] at hstep
    obtain ⟨rfl, rfl, rfl, rfl⟩ := hstep
    exact .record hop
  | storeWrite page type roffset =>
    rw [hop] at hok
    obtain ⟨x, hm, rfl⟩ := hok
    have hx : x < 2097152 := h.held_small hf (p := p) (t := type) (by
      simp [State.held, State.recorded, hop, Op.reserved, Op.released, hm])
    have hlt : ¬ x * pageSize ≥ remoteBufSize := by
      simp only [pageSize_eq, remoteBufSize_eq]
      omega
    simp only [stepOp, hop, hlt, if_false, Except.ok.injEq, Prod.mk.injEq] at hstep
    obtain ⟨rfl, rfl, rfl, rfl⟩ := hstep
    exact .write hop hm
  | loadLookup => exact h.lookup_move hf hop hstep
  | loadRead type roffset =>
    rw [hop] at hok
    have hlt : ¬ roffset ≥ remoteBufSize := not_le.mpr hok.1
    simp only [stepOp, hop, hlt, if_false, Except.ok.injEq, Prod.mk.injEq] at hstep
    obtain ⟨rfl, rfl, rfl, rfl⟩ := hstep
    exact .read hop

/-- Every step of the system keeps the invariant. -/
theorem Inv.step (h : Inv cfg n s) (hf : Fits cfg n) {ev : List (Event α)} (hs : Step cfg n s ev s') :
    Inv cfg n s' := by
  cases hs with
  | callStore p page hp hidle =>
    refine h.same hp s.remote ?_ ?_ ⟨rfl, rfl⟩ <;>
      simp [State.place, State.held, State.recorded, Op.reserved, Op.released, hidle]
  | callLoad p hp hidle =>
    refine h.same hp s.remote ?_ ?_ trivial <;>
      simp [State.place, State.held, State.recorded, Op.reserved, Op.released, hidle]
  | advance p hrun hstep =>
    exact h.move hf (h.lt_of_running hrun) (h.advance_move hf hrun hstep)

/-- The invariant holds in every reachable state. -/
theorem reachable_inv (hf : Fits cfg n) {remote : ℕ → ℕ → α}
    (h : (system cfg n remote).Reachable s) : Inv cfg n s :=
  h.invariant (fun _ hs => hs ▸ Inv.init remote) fun _ _ _ hi hs => hi.step hf hs

/-- The shipped configuration has room for every number of pageids that fit in
the remote buffer. -/
theorem fits_initScheduler (debugVm : Bool) (hn : n ≤ remoteBufSize >>> pageShift) :
    Fits (initScheduler debugVm) n where
  room t ht := by
    have hn' : n ≤ 2097152 := hn
    rw [card_pagesOf n ht, initScheduler_nrRemoteMaps, remoteAddressSpacePages_eq]
    omega
  inRange p hp := by
    have hn' : n ≤ 2097152 := hn
    change p >>> 14 < 128
    rw [Nat.shiftRight_eq_div_pow]
    omega
  small := hn

/-- The slots that the pageids below `n` of one parity can get on their node. -/
def slotBound (n node : ℕ) : ℕ := if node = 0 then (n + 1) / 2 else n / 2

/-- An owned slot is below the bound of its node, and its page lies in the
buffer of the memory server. -/
theorem Inv.held_bounded (h : Inv cfg n s) (hf : Fits cfg n) {t x : ℕ} (hh : s.held p = some (t, x)) :
    t < 2 ∧ x < slotBound n t ∧ x * pageSize + pageSize ≤ Server.bufferSize := by
  have ht := (h.rep.hasSlot p t x hh).1
  have hx := h.held_lt hh
  have hn : n ≤ 2097152 := hf.small
  simp only [maxRemoteNodes_eq] at ht
  rw [card_pagesOf n ht] at hx
  simp only [slotBound, pageSize_eq, Server.bufferSize_eq]
  refine ⟨ht, ?_, by omega⟩
  split <;> omega

/-- No search of a running store fails, and no place that the scheduler returns
is outside the buffer of the server. The slot that `sswap_select_slot` returned
is in the state of the call until it is recorded, the offset that
`sswap_scheduler_write` returned until it is written. -/
theorem scheduler_stays_in_buffer (debugVm : Bool) (hn : n ≤ remoteBufSize >>> pageShift)
    {remote : ℕ → ℕ → α} (h : (system (initScheduler debugVm) n remote).Reachable s) (p : ℕ) :
    (s.op p).mappingFull = false ∧
    (∀ page second flags i offset, s.op p = .storeProbe page second flags i offset →
      second = false ∧ i < (initScheduler debugVm).nrRemoteMaps (attemptNode p second)) ∧
    (∀ page second flags slot, s.op p = .storeRecord page second flags slot →
      second = false ∧ slot < slotBound n (attemptNode p second)) ∧
    (∀ page type roffset, s.op p = .storeWrite page type roffset →
      ∃ slot, roffset = slot * pageSize ∧ type < maxRemoteNodes ∧ slot < slotBound n type ∧
        roffset + pageSize ≤ Server.bufferSize) := by
  have hf := fits_initScheduler debugVm hn
  have hi := reachable_inv hf h
  have hok := hi.ops p
  refine ⟨?_, ?_, ?_, ?_⟩
  · cases hop : s.op p <;> rw [hop] at hok <;> first | rfl | exact hok.2.1 | exact hok.2
  · intro page second flags i offset hop
    rw [hop] at hok
    have hp := hi.lt_of_running (p := p) (by simp [hop])
    obtain ⟨rfl, _⟩ := hok
    exact ⟨rfl, (hi.probe_lt hf hp hop).2⟩
  · intro page second flags slot hop
    rw [hop] at hok
    refine ⟨hok.1, (hi.held_bounded hf (p := p) ?_).2.1⟩
    simp [State.held, hop, Op.reserved]
  · intro page type roffset hop
    rw [hop] at hok
    obtain ⟨slot, hm, rfl⟩ := hok
    have hheld : s.held p = some (type, slot) := by
      simp [State.held, State.recorded, hop, Op.reserved, Op.released, hm]
    obtain ⟨ht, hslot, hbuf⟩ := hi.held_bounded hf hheld
    exact ⟨slot, rfl, ht, hslot, hbuf⟩

/-- While a second store of pageid 1 runs, a store of pageid 3 takes the slot that it has
released; then both return, and both pageids are loaded. -/
theorem overlapping_run {n : ℕ} (hn : 4 ≤ n) : ∃ s t : State ℕ,
    (system (initScheduler false) n fun _ _ => 0).Run [.stored 1 7 0] s ∧
      s.op 1 = .storeRecord 8 false ⟨true, false⟩ 1 ∧ s.op 3 = .storeRecord 9 false ⟨true, false⟩ 0 ∧
      (system (initScheduler false) n fun _ _ => 0).Run
        [.stored 1 7 0, .stored 3 9 0, .stored 1 8 0, .loaded 1 0 (some 8), .loaded 3 0 (some 9)] t ∧
      t.op = fun _ => .idle := by
  have hcall : (system (initScheduler false) n fun _ _ => 0).Run [] _ :=
    .step (.start rfl) (.callStore 1 7 (by omega) rfl)
  have hstored := Run.solo (p := 1) (k := 4) hcall rfl
  have hreleased := Run.solo (p := 1) (k := 2) (hstored.step (.callStore 1 8 (by omega) rfl)) rfl
  have htaken := Run.solo (p := 3) (k := 2) (hreleased.step (.callStore 3 9 (by omega) rfl)) rfl
  have hreserved := Run.solo (p := 1) (k := 1) htaken rfl
  have hthree := Run.solo (p := 3) (k := 2) hreserved rfl
  have hone := Run.solo (p := 1) (k := 2) hthree rfl
  have hload := Run.solo (p := 1) (k := 2) (hone.step (.callLoad 1 (by omega) rfl)) rfl
  have hload' := Run.solo (p := 3) (k := 2) (hload.step (.callLoad 3 (by omega) rfl)) rfl
  refine ⟨_, _, hreserved, rfl, rfl, hload', funext fun p => ?_⟩
  by_cases hp : p = 1 ∨ p = 3
  · obtain rfl | rfl := hp <;> rfl
  · simp only [not_or] at hp
    simp [hp]

theorem scheduler_stays_in_buffer_overlapping : ∃ s : State ℕ,
    s.op 1 = .storeRecord 8 false ⟨true, false⟩ 1 ∧ s.op 3 = .storeRecord 9 false ⟨true, false⟩ 0 ∧
      0 < slotBound 4 1 ∧ 1 < slotBound 4 1 := by
  obtain ⟨s, -, hs, hone, hthree, -⟩ := overlapping_run (n := 4) le_rfl
  have hin := scheduler_stays_in_buffer false (by decide) ⟨_, hs⟩
  exact ⟨s, hone, hthree, ((hin 3).2.2.1 9 false _ 0 hthree).2, ((hin 1).2.2.1 8 false _ 1 hone).2⟩

/-- The slot `l` is owned by `p`: recorded and not released by a running store,
or reserved by a running store that has not recorded it yet. -/
def State.Owns (s : State α) (p : ℕ) (l : ℕ × ℕ) : Prop :=
  (s.sched.mappingOf p = some l ∧ (s.op p).released = false) ∨ (s.op p).reserved p = some l

theorem owns_iff_held {l : ℕ × ℕ} : s.Owns p l ↔ s.held p = some l := by
  cases hop : s.op p <;>
    simp [State.Owns, State.held, State.recorded, hop, Op.reserved, Op.released]

/-- The representation invariant of the running scheduler. -/
theorem scheduler_representation (debugVm : Bool) (hn : n ≤ remoteBufSize >>> pageShift)
    {remote : ℕ → ℕ → α} (h : (system (initScheduler debugVm) n remote).Reachable s) :
    -- counters: free_pages is the number of zero bits
    (∀ t g, t < maxRemoteNodes → g < (initScheduler debugVm).nrRemoteMaps t →
      (s.sched.remoteMap t g).freePages =
        BitSearch.zeroCount (s.sched.remoteMap t g).mapping (s.sched.remoteMap t g).nrPages ∧
      (s.sched.remoteMap t g).freePages ≤ (s.sched.remoteMap t g).nrPages ∧
      ((s.sched.remoteMap t g).freePages ≠ 0 →
        BitSearch.firstZero (s.sched.remoteMap t g).mapping (s.sched.remoteMap t g).nrPages <
          (s.sched.remoteMap t g).nrPages)) ∧
    -- the set bits are the owned slots, and a slot has one owner
    (∀ t x, (initScheduler debugVm).HasSlot t x → (s.sched.bit t x = true ↔ ∃ p, s.Owns p (t, x))) ∧
    (∀ p q l, s.Owns p l → s.Owns q l → p = q) ∧
    -- entries decode to slots that exist, and a release clears a bit that is set
    (∀ p t x, s.sched.mappingOf p = some (t, x) → (initScheduler debugVm).HasSlot t x) ∧
    (∀ p page second flags entry t x, s.op p = .storeClear page second flags entry →
      decodeEntry entry = some (t, x) → s.sched.bit t x = true) := by
  have hi := reachable_inv (fits_initScheduler debugVm hn) h
  refine ⟨fun t g ht hg => ?_, fun t x hx => ?_, fun p q l hp hq => ?_, hi.rep.entries, ?_⟩
  · have hcount := hi.rep.freePages t g ht hg
    rw [hi.rep.nrPages t g ht hg]
    refine ⟨hcount, hcount ▸ BitSearch.zeroCount_le _ _, fun hfree => ?_⟩
    exact (hi.rep.node ht).firstZero_lt hg hfree
  · simp only [owns_iff_held]
    exact hi.rep.owned t x hx
  · exact hi.rep.unique p q l (owns_iff_held.mp hp) (owns_iff_held.mp hq)
  · intro p page second flags entry t x hop hentry
    have hok := hi.ops p
    rw [hop] at hok
    have hm : s.sched.mappingOf p = some (t, x) := hok.2.2.2.symm.trans hentry
    refine (hi.rep.owned t x (hi.rep.entries p t x hm)).mpr ⟨p, ?_⟩
    simp [State.held, State.recorded, hop, Op.reserved, Op.released, hm]

theorem scheduler_representation_overlapping : ∃ s : State ℕ, s.Owns 3 (1, 0) ∧ s.Owns 1 (1, 1) ∧
    s.sched.bit 1 0 = true ∧ s.sched.bit 1 1 = true := by
  obtain ⟨s, -, hs, hone, hthree, -⟩ := overlapping_run (n := 4) le_rfl
  have hbits := (scheduler_representation false (by decide) ⟨_, hs⟩).2.1
  have hfirst : s.Owns 3 (1, 0) := .inr (by rw [hthree]; rfl)
  have hsecond : s.Owns 1 (1, 1) := .inr (by rw [hone]; rfl)
  exact ⟨s, hfirst, hsecond, (hbits 1 0 (by decide)).mpr ⟨3, hfirst⟩,
    (hbits 1 1 (by decide)).mpr ⟨1, hsecond⟩⟩

end Multiswap.Concurrent
