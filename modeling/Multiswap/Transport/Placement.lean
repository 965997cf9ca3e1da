import Multiswap.Concurrent.Safety
import Multiswap.Transport.Invariant

/-!
# Where the transfers go

The scheduler does not see how a transfer goes, so its invariant holds over the queues
whatever allocations, mappings, posts and completions fail (not so if an `xa_store` did).
Hence every request in flight is for a place in the buffer of its server, and no two of
them are for the same cell.
-/

namespace Multiswap.Transport

open Concurrent (Op)
open Rdma (Host numServer)

section Driver

variable {α : Type} {cfg : Config} {n : ℕ} {t t' : Concurrent.State α} {p : ℕ}
  {ev : List (Concurrent.Event α)}

/-- The transfer is with one of the two servers, inside its buffer. -/
structure Transfer.Inside (x : Transfer) : Prop where
  server : x.dev < numServer
  buffer : x.roffset + pageSize ≤ Server.bufferSize

/-- The invariant of the scheduler, and every load reads inside the buffer of a server. -/
structure Placed (cfg : Config) (n : ℕ) (t : Concurrent.State α) : Prop where
  inv : Concurrent.Inv cfg n t
  reads : ∀ p type roffset, t.op p = .loadRead type roffset →
    Transfer.Inside ⟨.rdmaRead, type, roffset⟩

/-- A call comes to its read from the lookup. -/
theorem move_reading (hm : Concurrent.Move cfg t p ev t') {type roffset : ℕ}
    (hop : t'.op p = .loadRead type roffset) : t.op p = .loadLookup := by
  cases hm with
  | lookup hlookup => exact hlookup
  | _ => simp at hop

/-- The page of a call that is not between its release and its record is in the slot that
the mapping names. -/
theorem held_of_mapping {l : ℕ × ℕ} (hm : t.sched.mappingOf p = some l)
    (hop : (t.op p).released = false) (hnone : (t.op p).reserved p = none) : t.held p = some l := by
  simp [Concurrent.State.held, Concurrent.State.recorded, hop, hnone, hm]

/-- The lookup of a load names a place in the buffer of a server. -/
theorem lookup_inside (hi : Concurrent.Inv cfg n t) (hf : Concurrent.Fits cfg n)
    (hlookup : t.op p = .loadLookup) {type roffset : ℕ}
    (hread : sswapSchedulerRead cfg p t.sched = .ok (roffset, type)) :
    Transfer.Inside ⟨.rdmaRead, type, roffset⟩ := by
  have hp : p < n := hi.lt_of_running (by simp [hlookup])
  have hr := hf.inRange p hp
  rw [sswapSchedulerRead] at hread
  cases hm : t.sched.mappingOf p with
  | none =>
    rw [sswapGetMapping_none hr hm] at hread
    split at hread
    · cases hread
    · cases hread
      exact ⟨by decide, by decide⟩
  | some l =>
    obtain ⟨type', slot⟩ := l
    have hheld := held_of_mapping hm (by rw [hlookup]; rfl) (by rw [hlookup]; rfl)
    have hslot : slot < 2097152 := hi.held_small hf hheld
    obtain ⟨htype, -, hbuffer⟩ := hi.held_bounded hf hheld
    rw [sswapGetMapping_some hr hm, slotOffset_eq (by omega : slot < 2 ^ 52)] at hread
    cases hread
    exact ⟨htype, hbuffer⟩

theorem Placed.init (cfg : Config) (n : ℕ) (memory : ℕ → ℕ → α) :
    Placed cfg n ⟨Scheduler.init, memory, fun _ => .idle⟩ :=
  ⟨.init memory, fun p type roffset hop => by cases hop⟩

/-- A call goes on to something else than a read. -/
theorem Placed.update (h : Placed cfg n t) {sched : Scheduler} {remote : ℕ → ℕ → α} {op : Op α}
    (hi : Concurrent.Inv cfg n ⟨sched, remote, Function.update t.op p op⟩)
    (hop : ∀ type roffset, op = .loadRead type roffset →
      Transfer.Inside ⟨.rdmaRead, type, roffset⟩) :
    Placed cfg n ⟨sched, remote, Function.update t.op p op⟩ := by
  refine ⟨hi, fun p' type roffset hop' => ?_⟩
  by_cases hpp : p' = p
  · subst hpp
    exact hop type roffset (by simpa using hop')
  · exact h.reads p' type roffset (by simpa [hpp] using hop')

theorem Placed.step (h : Placed cfg n t) (hf : Concurrent.Fits cfg n)
    (hs : Concurrent.Step cfg n t ev t') : Placed cfg n t' := by
  have hi' := h.inv.step hf hs
  cases hs with
  | callStore p page hp hidle => exact h.update hi' fun _ _ hop => by cases hop
  | callLoad p hp hidle => exact h.update hi' fun _ _ hop => by cases hop
  | advance p hne hstep =>
    refine h.update hi' fun type roffset hop => ?_
    subst hop
    have hlookup := move_reading (h.inv.advance_move hf hne hstep) (Function.update_self ..)
    rw [Concurrent.stepOp, hlookup] at hstep
    cases hread : sswapSchedulerRead cfg p t.sched with
    | error e => simp [hread, bind, Except.bind] at hstep
    | ok r =>
      simp only [hread, bind, Except.bind, pure, Except.pure, Except.ok.injEq, Prod.mk.injEq,
        Op.loadRead.injEq] at hstep
      obtain ⟨⟨rfl, rfl⟩, -⟩ := hstep
      exact lookup_inside h.inv hf hlookup hread

theorem run_placed (hf : Concurrent.Fits cfg n) {memory : ℕ → ℕ → α}
    {tr : List (Concurrent.Event α)} (h : (Concurrent.system cfg n memory).Run tr t) :
    Placed cfg n t :=
  h.invariant (I := fun _ t => Placed cfg n t) (fun _ ht => ht ▸ .init cfg n memory)
    fun _ _ _ _ _ hp hs => hp.step hf hs

/-- The invariant does not depend on the remote memory. -/
theorem Placed.remote (h : Placed cfg n t) (hsched : t'.sched = t.sched) (hop : t'.op = t.op) :
    Placed cfg n t' := by
  obtain ⟨sched, remote, op⟩ := t'
  subst hsched hop
  exact ⟨⟨h.inv.rep, h.inv.fit, h.inv.ops, h.inv.parity, h.inv.quiet⟩, h.reads⟩

/-- A call whose transfer is over returns. -/
theorem Placed.return (h : Placed cfg n t) {x : Transfer} (hx : transfer? (t.op p) = some x) :
    Placed cfg n { t with op := Function.update t.op p .idle } := by
  have hne : t.op p ≠ .idle := fun hidle => by simp [hidle, transfer?] at hx
  refine h.update (h.inv.same (h.inv.lt_of_running hne) t.remote ?_ ?_ trivial)
    fun _ _ hop => by cases hop
  all_goals
    obtain ⟨opcode, type, roffset⟩ := x
    cases opcode with
    | rdmaWrite =>
      obtain ⟨-, page, hop⟩ := transfer?_write hx
      simp [Concurrent.State.place, Concurrent.State.held, Concurrent.State.recorded, Op.reserved,
        Op.released, hop]
    | rdmaRead =>
      obtain ⟨-, hop⟩ := transfer?_read hx
      simp [Concurrent.State.place, Concurrent.State.held, Concurrent.State.recorded, Op.reserved,
        Op.released, hop]

/-- The cell of a transfer is the one that its pageid owns, unless it is a read of a pageid
without a mapping. -/
theorem Placed.cell (h : Placed cfg n t) {x : Transfer} (hx : transfer? (t.op p) = some x)
    (hmapped : x.opcode = .rdmaRead → t.sched.mappingOf p ≠ none) :
    ∃ slot, x.roffset = slot * pageSize ∧ t.sched.mappingOf p = some (x.dev, slot) ∧
      t.held p = some (x.dev, slot) := by
  obtain ⟨opcode, type, roffset⟩ := x
  have hok := h.inv.ops p
  cases opcode with
  | rdmaWrite =>
    obtain ⟨-, page, hop⟩ := transfer?_write hx
    rw [hop] at hok
    obtain ⟨slot, hm, hoff⟩ := hok
    exact ⟨slot, hoff, hm, held_of_mapping hm (by rw [hop]; rfl) (by rw [hop]; rfl)⟩
  | rdmaRead =>
    obtain ⟨-, hop⟩ := transfer?_read hx
    rw [hop] at hok
    obtain ⟨⟨type', slot⟩, hm⟩ := Option.ne_none_iff_exists'.mp (hmapped rfl)
    obtain ⟨rfl, hoff⟩ := hok.2 type' slot hm
    exact ⟨slot, hoff, hm, held_of_mapping hm (by rw [hop]; rfl) (by rw [hop]; rfl)⟩

/-- The transfer of a running call is inside the buffer of its server. -/
theorem Placed.inside (h : Placed cfg n t) (hf : Concurrent.Fits cfg n) {x : Transfer}
    (hx : transfer? (t.op p) = some x) : x.Inside := by
  cases hop : x.opcode with
  | rdmaWrite =>
    obtain ⟨slot, hoff, -, hheld⟩ := h.cell hx (by simp [hop])
    obtain ⟨htype, -, hbuffer⟩ := h.inv.held_bounded hf hheld
    exact ⟨htype, hoff ▸ hbuffer⟩
  | rdmaRead =>
    obtain ⟨opcode, type, roffset⟩ := x
    cases hop
    exact h.reads p type roffset (transfer?_read hx).2

end Driver

variable {α : Type} {n : ℕ} {cfg : Config} {host : Host} {memory : ℕ → ℕ → α}
  {tr ev : List (Event α n)} {s s' : State α n}

theorem step_placed (hf : Concurrent.Fits cfg n) (hi : Inv tr s) (h : Placed cfg n s.driver)
    (hs : Step cfg host s ev s') : Placed cfg n s'.driver := by
  cases hs with
  | callStore p page hidle => exact h.step hf (.callStore p page p.isLt hidle)
  | callLoad p page hidle => exact h.step hf (.callLoad p p.isLt hidle)
  | schedule p hne hnone hstep => exact h.step hf (.advance p hne hstep)
  | start | internal | post => exact h
  | complete q status hin =>
    obtain ⟨hop, hsched, -⟩ := moveData_eq s q _ status
    exact h.remote hsched hop
  | leave q p hq =>
    obtain ⟨x, hx, -⟩ := hi.on q p (hi.leaves hq).2.2.2.2
    exact h.return hx

/-- The invariant of the scheduler holds in every run over the queues. -/
theorem driver_placed (hf : Concurrent.Fits cfg n) (h : (system cfg host n memory).Run tr s) :
    Placed cfg n s.driver := by
  refine h.invariant (I := fun _ s => Placed cfg n s.driver) (fun s hs => ?_)
    fun tr s ev s' hrun hp hs => step_placed hf (run_inv hrun) hp hs
  obtain ⟨pages, rfl⟩ := hs
  exact .init cfg n memory

/-- Whatever becomes of the requests, and as long as every `xa_store` succeeds, the hardware
never leaves the buffer of a server and never moves two pages to or from one cell at the
same time, loads of pageids without a mapping apart. -/
theorem inflight_apart (debugVm : Bool) (hn : n ≤ remoteBufSize >>> pageShift)
    (h : (system (initScheduler debugVm) host n memory).Run tr s) {q₁ : QueueId} {r₁ : Queue.Req}
    (h₁ : r₁ ∈ (s.queues q₁).inflight) :
    (q₁.dev < numServer ∧ s.roffset q₁ r₁ + pageSize ≤ Server.bufferSize) ∧
      ∀ q₂, ∀ r₂ ∈ (s.queues q₂).inflight, q₁.dev = q₂.dev → s.roffset q₁ r₁ = s.roffset q₂ r₂ →
        (r₁.call.op = .rdmaRead → s.driver.sched.mappingOf r₁.call.page ≠ none) →
        (r₂.call.op = .rdmaRead → s.driver.sched.mappingOf r₂.call.page ≠ none) →
          q₁ = q₂ ∧ r₁ = r₂ := by
  have hf := Concurrent.fits_initScheduler debugVm hn
  have hi := run_inv h
  have hp := driver_placed hf h
  obtain ⟨p₁, hvia₁, hp₁, -, hx₁⟩ := hi.request h₁
  rw [hp₁]
  obtain ⟨hserver, hbuffer⟩ := hp.inside hf hx₁
  refine ⟨⟨hserver, hbuffer⟩, fun q₂ r₂ h₂ hdev hoff hm₁ hm₂ => ?_⟩
  obtain ⟨p₂, hvia₂, hp₂, -, hx₂⟩ := hi.request h₂
  rw [hp₂] at hm₂
  obtain ⟨slot₁, hslot₁, -, hheld₁⟩ := hp.cell hx₁ hm₁
  obtain ⟨slot₂, hslot₂, -, hheld₂⟩ := hp.cell hx₂ hm₂
  -- one cell has one owner, and a pageid has one request in flight
  have hslot : slot₁ = slot₂ :=
    Nat.eq_of_mul_eq_mul_right (by decide) (hslot₁.symm.trans (hoff.trans hslot₂))
  have hheld : s.driver.held p₂ = some (q₁.dev, slot₁) := by
    rw [hheld₂, hslot, hdev]
  have hpage : p₁ = p₂ := Fin.ext (hp.inv.rep.unique _ _ _ hheld₁ hheld)
  rw [hpage, hvia₂] at hvia₁
  cases hvia₁
  exact ⟨rfl, List.inj_on_of_nodup_map (hi.unique q₁) h₁ h₂ (by rw [hp₁, hp₂, hpage])⟩

end Multiswap.Transport
