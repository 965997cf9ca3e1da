import Mathlib.Data.List.Perm.Basic
import Multiswap.Pairing.Defs
import Multiswap.Server.History

/-!
# Who gets the memory region

The client waits for the memory region on its queue 0, and the server sends it on
the connection of its entry 0. The entries follow the connect requests of all
loads, so the two agree for the load that the server met first and for no other.
-/

namespace Multiswap.Pairing

open Server Transition

/-- What a client needs once all its queues are established: the server, in its
event loops, has posted the memory region on the connection of its queue 0. -/
def HandedOver (numcpus : ℕ → ℕ) (s : State) : Prop :=
  s.server.InLoops → s.Complete numcpus → s.server.globals.Posted (s.link 0)

/-- Of all connect requests that the server handled, the one of queue 0 of `load`
came first, and the server has seen that connection established. -/
def MetFirst (tr : List (CmEvent Link)) (load : ℕ) : Prop :=
  (requests tr).head? = some ⟨load, 0⟩ ∧ CmEvent.established ⟨load, 0⟩ ∈ tr

instance (tr : List (CmEvent Link)) (load : ℕ) : Decidable (MetFirst tr load) :=
  inferInstanceAs (Decidable (_ ∧ _))

/-- The client has called `rdma_connect_locked` for a queue. -/
def State.Sent (s : State) (l : Link) : Prop :=
  l.load < s.load ∨ l.load = s.load ∧ (l.queue < s.up ∨ l.queue = s.up ∧ s.requested = true)

/-- No connection is asked for twice, and the memory of the server records what it
handled. -/
structure Invariant (tr : List (CmEvent Link)) (s : State) : Prop where
  nodup : (requests (tr ++ s.pending)).Nodup
  sent : ∀ l ∈ requests (tr ++ s.pending), s.Sent l
  records : s.server.InLoops → Records tr s.server.globals

theorem invariant_initial : Invariant [] State.initial where
  nodup := .nil
  sent _ h := by cases h
  records _ := records_initial

variable {numcpus : ℕ → ℕ} {tr ev : List (CmEvent Link)} {s s' : State}

/-- New events of the client that ask for no connection. -/
theorem Invariant.append (h : Invariant tr s) {client : State} {more : List (CmEvent Link)}
    (hserver : client.server = s.server) (hmore : requests more = [])
    (hpending : client.pending = s.pending ++ more) (hsent : ∀ l, s.Sent l → client.Sent l) :
    Invariant tr client := by
  have hreq : requests (tr ++ client.pending) = requests (tr ++ s.pending) := by
    simp [hpending, requests_append, hmore]
  constructor
  · rw [hreq]
    exact h.nodup
  · intro l hl
    rw [hreq] at hl
    exact hsent l (h.sent l hl)
  · rw [hserver]
    exact h.records

theorem requests_disconnects (s : State) (n : ℕ) :
    requests ((List.range n).map fun q => CmEvent.disconnected (s.link q)) = [] := by
  simp [requests, CmEvent.request?, List.filterMap_map]

/-- The event that the server handles moves from the pending events to the handled ones. -/
theorem serve_perm {k : ℕ} {e : CmEvent Link} (he : s.pending[k]? = some e) :
    (tr ++ s.pending).Perm (tr ++ [e] ++ s.pending.eraseIdx k) := by
  obtain ⟨hlt, rfl⟩ := List.getElem?_eq_some_iff.mp he
  rw [List.append_assoc]
  exact (List.getElem_cons_eraseIdx_perm hlt).symm.append_left tr

/-- The next queue asks for a connection that was not asked for before. -/
theorem Invariant.connect (h : Invariant tr s) (hrequested : s.requested = false) :
    Invariant tr { s with
      requested := true
      pending := s.pending ++ [.connectRequest (s.link s.up) connParam] } := by
  have hreq : requests (tr ++ (s.pending ++ [.connectRequest (s.link s.up) connParam])) =
      requests (tr ++ s.pending) ++ [s.link s.up] := by simp [requests_append]
  have hnew : s.link s.up ∉ requests (tr ++ s.pending) := by
    intro hmem
    have hsent := h.sent _ hmem
    simp [State.Sent, State.link, hrequested] at hsent
  constructor
  · rw [hreq]
    exact h.nodup.append (List.nodup_singleton _) (List.disjoint_singleton.mpr hnew)
  · intro l hl
    rw [hreq] at hl
    rcases List.mem_append.mp hl with hl | hl
    · rcases h.sent l hl with hlt | ⟨heq, hlt | ⟨hup, -⟩⟩
      · exact .inl hlt
      · exact .inr ⟨heq, .inl hlt⟩
      · exact .inr ⟨heq, .inr ⟨hup, rfl⟩⟩
    · cases List.mem_singleton.mp hl
      exact .inr ⟨rfl, .inr ⟨rfl, rfl⟩⟩
  · exact h.records

/-- The server handles an event, and `pending` is left. -/
theorem Invariant.handle (h : Invariant tr s) (hloops : s.server.InLoops) (v : Verbs)
    {e : CmEvent Link} {pending : List (CmEvent Link)}
    (hperm : (requests (tr ++ s.pending)).Perm (requests (tr ++ [e] ++ pending))) :
    Invariant (tr ++ [e]) { s with server := s.server.turn v (some e), pending := pending } := by
  have hnodup := hperm.nodup_iff.mp h.nodup
  constructor
  · exact hnodup
  · intro l hl
    exact h.sent l (hperm.mem_iff.mpr hl)
  · intro hin
    exact (h.records hloops).turn hloops hin fun id hid => fresh_of_nodup hnodup hid

theorem Invariant.step (h : Invariant tr s) {a : Action} (hact : act numcpus s a = some (ev, s')) :
    Invariant (tr ++ ev) s' := by
  cases act_moves hact with
  | connect _ hrequested =>
    rw [List.append_nil]
    exact h.connect hrequested
  | established hrequested =>
    rw [List.append_nil]
    refine h.append rfl rfl rfl fun l hl => ?_
    simp only [State.Sent] at hl ⊢
    omega
  | stop =>
    rw [List.append_nil]
    refine h.append rfl (requests_disconnects s s.up) rfl fun l hl => ?_
    simp only [State.Sent] at hl ⊢
    omega
  | serve v hloops he => exact h.handle hloops v ((serve_perm he).filterMap _)
  | other v l hloops =>
    have hreq : requests (tr ++ [.other l] ++ s.pending) = requests (tr ++ s.pending) := by
      rw [requests_append, requests_append, requests_other, List.append_nil, ← requests_append]
    apply h.handle hloops v
    rw [hreq]
  | noEvent v hloops =>
    rw [List.append_nil]
    refine ⟨h.nodup, h.sent, fun hin => ?_⟩
    dsimp only at hin ⊢
    rw [turn_none_globals hin]
    exact h.records hloops

theorem invariant_of_run (h : (system numcpus).Run tr s) : Invariant tr s := by
  refine System.Run.invariant (fun s hs => ?_) (fun tr s ev s' _ hi hs => ?_) h
  · cases hs
    exact invariant_initial
  · obtain ⟨a, hact⟩ := hs
    exact hi.step hact

/-- The memory region is handed over exactly to the load that the server met first. -/
theorem handed_over_iff (h : (system numcpus).Run tr s) :
    HandedOver numcpus s ↔ (s.server.InLoops → s.Complete numcpus → MetFirst tr s.load) := by
  have hposted : s.server.InLoops →
      (s.server.globals.Posted (s.link 0) ↔ MetFirst tr s.load) := by
    intro hin
    rw [((invariant_of_run h).records hin).posted (s.link 0), MetFirst, List.head?_eq_getElem?]
    rfl
  show (s.server.InLoops → s.Complete numcpus → s.server.globals.Posted (s.link 0)) ↔ _
  exact forall_congr' fun hin => imp_congr_right fun _ => hposted hin

/-- Every library call succeeds. -/
def answers : Verbs where
  fails _ := false
  region := ⟨4096, 1⟩

/-- A queue is connected, with both events handled at once. -/
def connectQueue : List Action := [.connect, .serve answers 0, .established, .serve answers 0]

/-- A load of one processor connects its three queues. -/
def connectQueues : List Action := connectQueue ++ connectQueue ++ connectQueue

/-- The first load fails at queue 0, after the server has accepted it. -/
def failAtQueue0 : List Action :=
  [.connect, .serve answers 0, .stop, .other answers ⟨0, 0⟩]

theorem handed_over_first_load : ∃ tr s, (system fun _ => 1).Run tr s ∧ s.server.InLoops ∧
    s.Complete (fun _ => 1) ∧ HandedOver (fun _ => 1) s := by
  obtain ⟨tr, s, hrun, hin, hcomplete, hmet⟩ := exists_run (fun _ => 1) connectQueues
    (fun tr s => s.server.InLoops ∧ s.Complete (fun _ => 1) ∧ MetFirst tr s.load) rfl
  exact ⟨tr, s, hrun, hin, hcomplete, (handed_over_iff hrun).mpr fun _ _ => hmet⟩

theorem handed_over_counterexample : ∃ tr s, (system fun _ => 1).Run tr s ∧ s.server.InLoops ∧
    s.Complete (fun _ => 1) ∧ s.pending = [] ∧ ¬ HandedOver (fun _ => 1) s := by
  obtain ⟨tr, s, hrun, hin, hcomplete, hpending, hposted⟩ := exists_run (fun _ => 1)
    (failAtQueue0 ++ connectQueues) (fun _ s => s.server.InLoops ∧ s.Complete (fun _ => 1) ∧
      s.pending = [] ∧ ¬ s.server.globals.Posted (s.link 0)) rfl
  exact ⟨tr, s, hrun, hin, hcomplete, hpending, fun h => hposted (h hin hcomplete)⟩

end Multiswap.Pairing
