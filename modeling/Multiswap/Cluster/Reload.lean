import Multiswap.Cluster.Safety
import Multiswap.Lib.Simulation
import Multiswap.Server.Messages

/-!
# Loading the module again

The server sends the memory region on the connection of its entry 0, which belongs to the
first connect request that it ever handled, and no entry is given away twice. So once a load
fails after a server has handled one of its requests, no later load can be finished.
-/

namespace Multiswap.Cluster

open Pairing (act act_moves)
open Rdma (Host numServer)
open Server (Handled)
open Transition.System (Steps)

section Pairs

variable {numcpus : ℕ → ℕ} {p p' : Pairing.State} {ev : List (Server.CmEvent Pairing.Link)}
  {a : Pairing.Action} {L : ℕ}

/-- The server knows only loads that have begun. -/
structure Known (p : Pairing.State) : Prop where
  pending : ∀ e ∈ p.pending, ∀ id, e.request? = some id → id.load ≤ p.load
  qp : ∀ k id, (p.server.globals.queues k).qp = some id → id.load ≤ p.load
  posted : ∀ id r, .postSend id r ∈ p.server.globals.calls → id.load ≤ p.load

/-- Entry 0 of the server is taken by a load before load `L`. -/
structure Taken (L : ℕ) (p : Pairing.State) : Prop where
  load : L ≤ p.load
  queueCtr : 0 < p.server.globals.queueCtr
  qp : ∀ k id, k.val = 0 → (p.server.globals.queues k).qp = some id → id.load < L
  posted : ∀ id r, .postSend id r ∈ p.server.globals.calls → id.load < L

theorem known_initial : Known .initial := by
  constructor
  · intro e he
    cases he
  · intro k id hk
    cases hk
  · intro id r hmem
    cases hmem

/-- The server handles an event of a load that it may know. -/
theorem Known.handled (h : Known p) {e : Server.CmEvent Pairing.Link}
    {server : Server.Process Pairing.Link} {pending : List (Server.CmEvent Pairing.Link)}
    (hh : Handled e p.server.globals server.globals)
    (he : ∀ id, e.request? = some id → id.load ≤ p.load) (hpending : ∀ e ∈ pending, e ∈ p.pending) :
    Known { p with server := server, pending := pending } := by
  constructor
  · exact fun e he => h.pending e (hpending e he)
  · intro k id hk
    rcases hh.qp k id hk with hold | ⟨hid, -⟩
    · exact h.qp k id hold
    · exact he id hid
  · intro id r hmem
    rcases hh.posted id r hmem with hold | ⟨k, -, hk⟩
    · exact h.posted id r hold
    · exact h.qp k id hk

theorem Known.act (h : Known p) (hact : act numcpus p a = some (ev, p')) : Known p' := by
  cases act_moves hact with
  | connect =>
    refine ⟨fun e he id hid => ?_, h.qp, h.posted⟩
    rcases List.mem_append.mp he with he | he
    · exact h.pending e he id hid
    · cases List.mem_singleton.mp he
      cases hid
      exact Nat.le_refl _
  | established =>
    refine ⟨fun e he id hid => ?_, h.qp, h.posted⟩
    rcases List.mem_append.mp he with he | he
    · exact h.pending e he id hid
    · cases List.mem_singleton.mp he
      cases hid
  | stop =>
    refine ⟨fun e he id hid => ?_, fun k id hk => Nat.le_succ_of_le (h.qp k id hk),
      fun id r hmem => Nat.le_succ_of_le (h.posted id r hmem)⟩
    rcases List.mem_append.mp he with he | he
    · exact Nat.le_succ_of_le (h.pending e he id hid)
    · obtain ⟨q, -, rfl⟩ := List.mem_map.mp he
      cases hid
  | serve v _ he =>
    exact h.handled (Server.turn_handled p.server v _) (h.pending _ (List.mem_of_getElem? he))
      fun e he => List.mem_of_mem_eraseIdx he
  | other v l =>
    exact h.handled (Server.turn_handled p.server v (.other l))
      (fun id hid => by cases hid) fun _ he => he
  | noEvent v =>
    exact h.handled (Server.turn_none_handled p.server v (.other ⟨0, 0⟩))
      (fun id hid => by cases hid) fun _ he => he

/-- Entry 0 stays taken, whatever the server handles. -/
theorem Taken.handled (h : Taken L p) {e : Server.CmEvent Pairing.Link}
    {server : Server.Process Pairing.Link} {pending : List (Server.CmEvent Pairing.Link)}
    (hh : Handled e p.server.globals server.globals) :
    Taken L { p with server := server, pending := pending } := by
  have hctr := h.queueCtr
  refine ⟨h.load, Nat.lt_of_lt_of_le hctr hh.queueCtr, fun k id hzero hk => ?_, fun id r hmem => ?_⟩
  · rcases hh.qp k id hk with hold | ⟨-, hnew⟩
    · exact h.qp k id hzero hold
    · omega
  · rcases hh.posted id r hmem with hold | ⟨k, hzero, hk⟩
    · exact h.posted id r hold
    · exact h.qp k id hzero hk

theorem Taken.act (h : Taken L p) (hact : act numcpus p a = some (ev, p')) : Taken L p' := by
  cases act_moves hact with
  | connect | established => exact ⟨h.load, h.queueCtr, h.qp, h.posted⟩
  | stop => exact ⟨Nat.le_succ_of_le h.load, h.queueCtr, h.qp, h.posted⟩
  | serve v => exact h.handled (Server.turn_handled p.server v _)
  | other v l => exact h.handled (Server.turn_handled p.server v (.other l))
  | noEvent v => exact h.handled (Server.turn_none_handled p.server v (.other ⟨0, 0⟩))

/-- A load that fails leaves entry 0 taken, if the server has handled a request. -/
theorem Known.stop (h : Known p) (hctr : 0 < p.server.globals.queueCtr)
    (hact : Pairing.act numcpus p .stop = some (ev, p')) : Taken (p.load + 1) p' := by
  cases act_moves hact
  exact ⟨Nat.le_refl _, hctr, fun k id _ hk => Nat.lt_succ_of_le (h.qp k id hk),
    fun id r hmem => Nat.lt_succ_of_le (h.posted id r hmem)⟩

end Pairs

variable {α : Type} {n : ℕ} {cfg : Config} {hosts : ℕ → Host} {memory : ℕ → ℕ → α}
  {tr ev : List (Event α n)} {s s' : State α n} {L t : ℕ}

theorem run_known (h : (system cfg hosts n memory).Run tr s) (t : ℕ) : Known (s.pair t) := by
  refine h.invariant (I := fun _ s => ∀ t, Known (s.pair t)) (fun s hs => ?_)
    (fun _ s _ s' _ hk hs t => ?_) t
  · obtain ⟨d, -, rfl⟩ := hs
    exact fun _ => known_initial
  · cases hs with
    | pair t' a ht' ha hact =>
      by_cases ht : t = t'
      · subst ht
        simpa using (hk t).act hact
      · simpa [ht] using hk t
    | connected | receive | run => exact hk t
    | fail hl hstop => exact (hk t).act (hstop t)

/-- The load has no memory region from a server whose entry 0 is taken. -/
structure Barred (L t : ℕ) (s : State α n) : Prop where
  taken : Taken L (s.pair t)
  received : ¬ s.phase.Received t

theorem Barred.step (h : Barred L t s) (hs : Step cfg hosts s ev s') : Barred L t s' := by
  cases hs with
  | pair t' a ht' ha hact =>
    refine ⟨?_, h.received⟩
    by_cases ht : t = t'
    · subst ht
      simpa using h.taken.act hact
    · simpa [ht] using h.taken
  | connected => exact ⟨h.taken, not_received_afterConnecting⟩
  | @receive t' mr hphase hsent =>
    refine ⟨h.taken, fun hr => ?_⟩
    rcases Nat.lt_succ_iff_lt_or_eq.mp (received_afterReceiving hr) with hlt | rfl
    · exact h.received (by rwa [hphase])
    · -- the message would be for queue 0 of this load
      have hold : (s.pair t).load < L := h.taken.posted _ mr hsent
      exact absurd h.taken.load (Nat.not_le.mpr hold)
  | fail hl hstop => exact ⟨h.taken.act (hstop t), id⟩
  | run => exact ⟨h.taken, h.received⟩

/-- Once a load fails after one of its servers has handled a connect request, the module is not
loaded again, whatever the client, the servers and the network do, until this server is
started anew. -/
theorem never_again (h : (system cfg hosts n memory).Run tr s) (ht : t < numServer)
    (hctr : 0 < (s.pair t).server.globals.queueCtr) {s₁ : State α n}
    (hfail : Step cfg hosts s [.failed] s₁) (hs : Steps (Step cfg hosts) s₁ ev s') :
    s'.phase ≠ .loaded := by
  have hbarred : Barred ((s.pair t).load + 1) t s₁ := by
    generalize hev : [Event.failed] = ev₁ at hfail
    cases hfail with
    | fail hl hstop => exact ⟨(run_known h t).stop hctr (hstop t), id⟩
    | pair | connected | receive => cases hev
    | run =>
      have hmem := congrArg (Event.failed ∈ ·) hev
      simp at hmem
  have hend := hs.invariant (fun s ev s' hb hs => hb.step hs) hbarred
  intro hloaded
  refine hend.received ?_
  rw [hloaded]
  exact ht

/-- A load asks server 0 for a queue, the server handles the request, and the load fails. -/
theorem exists_failed : ∃ (tr : List (Event ℕ 2)) (s s₁ : State ℕ 2),
    (system (initScheduler false) (fun _ => ⟨6, false⟩) 2 fun _ _ => 0).Run tr s ∧
      0 < (s.pair 0).server.globals.queueCtr ∧
        Step (initScheduler false) (fun _ => ⟨6, false⟩) s [.failed] s₁ := by
  have hstart : (system (initScheduler false) (fun _ => ⟨6, false⟩) 2 fun _ _ => 0).Run [] _ :=
    .start ⟨_, ⟨fun _ => 0, rfl⟩, rfl⟩
  have hasked := hstart.step (.pair 0 .connect (by decide) rfl rfl)
  have hserved := hasked.step (.pair 0 (.serve Pairing.answers 0) (by decide) trivial rfl)
  exact ⟨_, _, _, hserved, by decide, .fail (by decide) fun _ => rfl⟩

/-- The next load does not get to its end. -/
theorem never_again_once : ∃ (s₁ : State ℕ 2), ∀ (ev : List (Event ℕ 2)) (s' : State ℕ 2),
    Steps (Step (initScheduler false) fun _ => ⟨6, false⟩) s₁ ev s' → s'.phase ≠ .loaded := by
  obtain ⟨tr, s, s₁, hrun, hctr, hfail⟩ := exists_failed
  exact ⟨s₁, fun ev s' hs => never_again hrun (by decide) hctr hfail hs⟩

end Multiswap.Cluster
