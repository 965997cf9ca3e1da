import Multiswap.Cluster.Safety
import Multiswap.Lib.Simulation
import Multiswap.Pairing.FirstLoad
import Multiswap.Transport.RoundTrip

/-!
# Loading the module

As long as no load fails, the servers get no foreign events and no library call fails, the
first load of the module can go on to its end, in whatever order the servers have handled
their events.
-/

namespace Multiswap.Cluster

open Pairing (FirstLoad Stuck numqueuesPerserver)
open Rdma (Host numServer)
open Server (Process)
open Transition.System (Steps)

variable {α : Type} {n : ℕ} {cfg : Config} {hosts : ℕ → Host} {memory : ℕ → ℕ → α}
  {tr ev ev' : List (Event α n)} {s s' : State α n} {N t : ℕ}

/-- No load has failed, and nothing has disturbed the servers. -/
structure Orderly (tr : List (Event α n)) : Prop where
  failed : .failed ∉ tr
  pair : ∀ t a, .pair t a ∈ tr → a.Orderly

theorem Orderly.append (h : Orderly ev) (h' : Orderly ev') : Orderly (ev ++ ev') := by
  constructor
  · intro hmem
    exact (List.mem_append.mp hmem).elim h.failed h'.failed
  · intro t a hmem
    exact (List.mem_append.mp hmem).elim (h.pair t a) (h'.pair t a)

theorem orderly_nil : Orderly ([] : List (Event α n)) := ⟨by simp, by simp⟩

theorem orderly_pair {a : Pairing.Action} (ha : a.Orderly) : Orderly [(.pair t a : Event α n)] := by
  constructor
  · simp
  · intro t' a' hmem
    cases List.mem_singleton.mp hmem
    exact ha

/-- The client is at one of its servers. -/
def Phase.Valid : Phase → Prop
  | .connecting t | .receiving t => t < numServer
  | .loaded => True

theorem valid_afterConnecting (t : ℕ) : (Phase.afterConnecting t).Valid := by
  unfold Phase.afterConnecting
  split
  · assumption
  · exact Nat.zero_lt_two

theorem valid_afterReceiving (t : ℕ) : (Phase.afterReceiving t).Valid := by
  unfold Phase.afterReceiving
  split
  · assumption
  · trivial

/-- The first load with each of the servers. -/
structure Loads (N : ℕ) (s : State α n) : Prop where
  servers : ∀ t < numServer, (∃ tr, FirstLoad N tr (s.pair t)) ∨
    Server.numQueues < N ∧ Stuck N (s.pair t)
  phase : s.phase.Valid

theorem Loads.step (h : Loads N s) (hcpus : numqueuesPerserver (numcpus hosts 0) = N)
    (ho : Orderly ev) (hs : Step cfg hosts s ev s') : Loads N s' := by
  cases hs with
  | @pair t a evt p ht ha hact =>
    have ha' : a.Orderly := ho.pair t a (by simp)
    refine ⟨fun t' ht' => ?_, h.phase⟩
    by_cases htt : t' = t
    · subst htt
      dsimp only
      rw [Function.update_self]
      rcases h.servers t' ht' with ⟨trt, hload⟩ | ⟨-, hstuck⟩
      · exact (hload.step hcpus ha' hact).imp_left fun hload' => ⟨trt ++ evt, hload'⟩
      · rw [hstuck.act ha'] at hact
        cases hact
    · simpa [htt] using h.servers t' ht'
  | connected => exact ⟨h.servers, valid_afterConnecting _⟩
  | receive => exact ⟨h.servers, valid_afterReceiving _⟩
  | fail => exact absurd (List.mem_singleton_self _) ho.failed
  | run => exact ⟨h.servers, h.phase⟩

theorem Loads.firstLoad (h : Loads N s) (hN : N ≤ Server.numQueues) (ht : t < numServer) :
    ∃ tr, FirstLoad N tr (s.pair t) :=
  (h.servers t ht).resolve_right fun hstuck => absurd hN (Nat.not_le.mpr hstuck.1)

theorem Orderly.of_append (h : Orderly (ev ++ ev')) : Orderly ev ∧ Orderly ev' :=
  ⟨⟨fun hmem => h.failed (List.mem_append_left _ hmem),
      fun t a hmem => h.pair t a (List.mem_append_left _ hmem)⟩,
    ⟨fun hmem => h.failed (List.mem_append_right _ hmem),
      fun t a hmem => h.pair t a (List.mem_append_right _ hmem)⟩⟩

theorem run_loads (hcpus : numqueuesPerserver (numcpus hosts 0) = N)
    (h : (system cfg hosts n memory).Run tr s) (ho : Orderly tr) : Loads N s := by
  induction h with
  | start hs =>
    obtain ⟨d, hd, rfl⟩ := hs
    exact ⟨fun t _ => .inl ⟨[], Pairing.firstLoad_initial N⟩, Nat.zero_lt_two⟩
  | step hr hs ih =>
    obtain ⟨hbefore, hafter⟩ := ho.of_append
    exact (ih hbefore).step hcpus hafter hs

/-- The client can go on from `s` to `s'` in order, without a store or a load. -/
def Reaches (cfg : Config) (hosts : ℕ → Host) (s s' : State α n) : Prop :=
  ∃ ev, Steps (Step cfg hosts) s ev s' ∧ Orderly ev ∧ s'.driver = s.driver

theorem Reaches.refl (s : State α n) : Reaches cfg hosts s s := ⟨[], .refl s, orderly_nil, rfl⟩

theorem Reaches.trans {s'' : State α n} (h : Reaches cfg hosts s s') (h' : Reaches cfg hosts s' s'') :
    Reaches cfg hosts s s'' := by
  obtain ⟨ev, hs, ho, hd⟩ := h
  obtain ⟨ev', hs', ho', hd'⟩ := h'
  exact ⟨ev ++ ev', hs.trans hs', ho.append ho', hd'.trans hd⟩

/-- The events between the client and a server that it waits for can all be handled. -/
theorem reaches_settled (hN : N ≤ Server.numQueues)
    (hcpus : numqueuesPerserver (numcpus hosts 0) = N) (ht : t < numServer)
    {trt : List (Server.CmEvent Pairing.Link)} (h : FirstLoad N trt (s.pair t))
    (hphase : s.phase = .connecting t ∨ (s.pair t).up = N) :
    ∃ trt' p, Reaches cfg hosts s { s with pair := Function.update s.pair t p } ∧
      FirstLoad N trt' p ∧ p.up = N ∧ p.pending = [] := by
  induction hk : FirstLoad.rest N (s.pair t) using Nat.strong_induction_on generalizing s trt with
  | _ k ih =>
    by_cases hrest : (s.pair t).up < N ∨ (s.pair t).pending ≠ []
    · obtain ⟨a, evt, p, ha, hact, hlt, hclient⟩ := h.progress hcpus hrest
      have hallows : Allows t s.phase a := by
        cases a with
        | connect | established =>
          have hup := hclient (by simp)
          obtain hphase := hphase.resolve_right (Nat.ne_of_lt hup)
          rw [hphase]
          rfl
        | serve | other | noEvent => cases s.phase <;> trivial
        | stop => exact absurd ha id
      have hone : Reaches cfg hosts s { s with pair := Function.update s.pair t p } :=
        ⟨_, .single (.pair t a ht hallows hact), orderly_pair ha, rfl⟩
      have hp : FirstLoad N (trt ++ evt) p :=
        (h.step hcpus ha hact).resolve_right fun hstuck => absurd hN (Nat.not_le.mpr hstuck.1)
      have hphase' : s.phase = .connecting t ∨ p.up = N := by
        refine hphase.imp_right fun hup => ?_
        have hne : a ≠ .established := by
          rintro rfl
          exact absurd hup (Nat.ne_of_lt (hclient (.inr rfl)))
        rw [act_up hact hallows.ne_stop hne, hup]
      obtain ⟨trt', p', hreach, hload, hup, hpending⟩ :=
        @ih (FirstLoad.rest N p) (hk ▸ hlt) { s with pair := Function.update s.pair t p } (trt ++ evt)
          (by simpa using hp) (by simpa using hphase') (by simp)
      rw [Function.update_idem] at hreach
      exact ⟨trt', p', hone.trans hreach, hload, hup, hpending⟩
    · rw [not_or, not_lt, not_not] at hrest
      refine ⟨trt, s.pair t, ?_, h, Nat.le_antisymm h.up hrest.1, hrest.2⟩
      rw [Function.update_eq_self]
      exact .refl s

/-- How far the load is from its end. -/
def Phase.rank : Phase → ℕ
  | .connecting t => 2 * numServer - t
  | .receiving t => numServer - t
  | .loaded => 0

theorem rank_afterConnecting (ht : t < numServer) :
    (Phase.afterConnecting t).rank < (Phase.connecting t).rank := by
  unfold Phase.afterConnecting
  split <;> simp only [Phase.rank, Rdma.numServer] at * <;> omega

theorem rank_afterReceiving (ht : t < numServer) :
    (Phase.afterReceiving t).rank < (Phase.receiving t).rank := by
  unfold Phase.afterReceiving
  split <;> simp only [Phase.rank, Rdma.numServer] at * <;> omega

/-- The client can finish with the server that it is at. -/
theorem reaches_next (hpos : 0 < N) (hN : N ≤ Server.numQueues)
    (hcpus : numqueuesPerserver (numcpus hosts 0) = N) (hi : Inv cfg hosts memory s) (hl : Loads N s)
    (hphase : s.phase ≠ .loaded) : ∃ s', Reaches cfg hosts s s' ∧ s'.phase.rank < s.phase.rank := by
  have hvalid := hl.phase
  cases hp : s.phase with
  | loaded => exact absurd hp hphase
  | connecting t =>
    rw [hp] at hvalid
    obtain ⟨trt, hload⟩ := hl.firstLoad hN hvalid
    obtain ⟨trt', p, hreach, hload', hup, -⟩ := reaches_settled hN hcpus hvalid hload (.inl hp)
    have hcomplete : p.Complete (numcpus hosts) := by
      rw [Pairing.State.Complete, hload'.load, hcpus, hup]
    refine ⟨_, hreach.trans ⟨[], .single (.connected hp ?_), orderly_nil, rfl⟩, ?_⟩
    · simpa using hcomplete
    · exact rank_afterConnecting hvalid
  | receiving t =>
    rw [hp] at hvalid
    obtain ⟨trt, hload⟩ := hl.firstLoad hN hvalid
    have hcomplete := hi.connected t (by rw [hp]; exact hvalid)
    rw [Pairing.State.Complete, hload.load, hcpus] at hcomplete
    obtain ⟨trt', p, hreach, hload', hup, hpending⟩ :=
      reaches_settled hN hcpus hvalid hload (.inr hcomplete)
    obtain ⟨mr, hsent⟩ := hload'.posted hpos hup hpending
    refine ⟨_, hreach.trans ⟨[], .single (@Step.receive α n cfg hosts _ t mr hp ?_), orderly_nil,
      rfl⟩, ?_⟩
    · simpa using hsent
    · exact rank_afterReceiving hvalid

/-- The first load can go on to its end. -/
theorem reaches_loaded (hpos : 0 < N) (hN : N ≤ Server.numQueues)
    (hcpus : numqueuesPerserver (numcpus hosts 0) = N)
    (h : (system cfg hosts n memory).Run tr s) (ho : Orderly tr) :
    ∃ s', Reaches cfg hosts s s' ∧ s'.phase = .loaded := by
  induction hk : s.phase.rank using Nat.strong_induction_on generalizing tr s with
  | _ k ih =>
    by_cases hphase : s.phase = .loaded
    · exact ⟨s, .refl s, hphase⟩
    · obtain ⟨s₁, hreach, hlt⟩ := reaches_next hpos hN hcpus (run_inv h) (run_loads hcpus h ho) hphase
      obtain ⟨ev, hs, ho', -⟩ := id hreach
      obtain ⟨s', hreach', hloaded⟩ := ih _ (hk ▸ hlt) (h.steps hs) (ho.append ho') rfl
      exact ⟨s', hreach.trans hreach', hloaded⟩

/-- A memory region comes only to a client with queues, and with no more queues than the
server has entries. -/
theorem run_received (hcpus : numqueuesPerserver (numcpus hosts 0) = N)
    (h : (system cfg hosts n memory).Run tr s) (ho : Orderly tr) (hr : s.phase.Received 0) :
    0 < N ∧ N ≤ Server.numQueues := by
  induction h with
  | start hs =>
    obtain ⟨d, hd, rfl⟩ := hs
    exact absurd hr id
  | @step tr ev s s' hrun hs ih =>
    obtain ⟨hbefore, hafter⟩ := ho.of_append
    cases hs with
    | pair | run => exact ih hbefore hr
    | connected => exact absurd hr not_received_afterConnecting
    | fail => exact absurd (List.mem_singleton_self _) hafter.failed
    | @receive t mr hphase hsent =>
      by_cases ht : t = 0
      · subst ht
        have hi := run_inv hrun
        have hcomplete := hi.connected 0 (by rw [hphase]; exact Nat.zero_lt_two)
        rw [Pairing.State.Complete] at hcomplete
        rcases (run_loads hcpus hrun hbefore).servers 0 Nat.zero_lt_two with
          ⟨trt, hload⟩ | ⟨-, hstuck⟩
        · rw [hload.load, hcpus] at hcomplete
          exact ⟨hload.pos_of_posted hsent, hcomplete ▸ hload.up_le⟩
        · rw [hstuck.load, hcpus] at hcomplete
          exact absurd hcomplete (Nat.ne_of_lt hstuck.up)
      · exact ih hbefore (by rw [hphase]; exact Nat.pos_of_ne_zero ht)

/-- As long as nothing fails and nothing disturbs the servers, the first load of the module can
be finished if the client has a processor, and no more of them than `NUM_PROCS`; otherwise it
cannot. No server leaves its event loops in the first case. -/
theorem can_load_iff (h : (system cfg hosts n memory).Run tr s) (ho : Orderly tr) :
    ((∃ ev s', Steps (Step cfg hosts) s ev s' ∧ Orderly ev ∧ s'.phase = .loaded) ↔
        0 < (hosts 0).numcpus ∧ (hosts 0).numcpus ≤ Server.numProcs) ∧
      ((hosts 0).numcpus ≤ Server.numProcs →
        ∀ t < numServer, (s.pair t).server.InLoops) := by
  have hqueues : Server.numQueues = Server.numProcs * 3 := rfl
  have hN : numqueuesPerserver (numcpus hosts 0) = (hosts 0).numcpus * 3 := rfl
  refine ⟨⟨?_, ?_⟩, fun hprocs t ht => ?_⟩
  · rintro ⟨ev, s', hs, ho', hloaded⟩
    have hr : s'.phase.Received 0 := by
      rw [hloaded]
      exact Nat.zero_lt_two
    have hbounds := run_received rfl (h.steps hs) (ho.append ho') hr
    omega
  · rintro ⟨hpos, hprocs⟩
    obtain ⟨s', ⟨ev, hs, ho', -⟩, hloaded⟩ := reaches_loaded (by omega) (by omega) rfl h ho
    exact ⟨ev, s', hs, ho', hloaded⟩
  · obtain ⟨trt, hload⟩ := (run_loads rfl h ho).firstLoad (by omega) ht
    exact hload.loops

/-- The first load of a client with six processors can be finished. -/
theorem can_load_six : ∃ (s : State ℕ 2) (ev : List (Event ℕ 2)) (s' : State ℕ 2),
    (system (initScheduler false) (fun _ => ⟨6, false⟩) 2 fun _ _ => 0).Run [] s ∧
      Steps (Step (initScheduler false) fun _ => ⟨6, false⟩) s ev s' ∧ s'.phase = .loaded := by
  have hrun : (system (initScheduler false) (fun _ => ⟨6, false⟩) 2 fun _ _ => 0).Run [] _ :=
    .start ⟨_, ⟨fun _ => 0, rfl⟩, rfl⟩
  obtain ⟨ev, s', hs, -, hloaded⟩ := (can_load_iff hrun orderly_nil).1.mpr ⟨by decide, by decide⟩
  exact ⟨_, ev, s', hrun, hs, hloaded⟩

/-! ## Runs of the driver -/

theorem orderly_driver (evd : List (Transport.Event α n)) : Orderly (evd.map Event.driver) := by
  constructor <;> simp

/-- In a loaded module the driver can take its steps. -/
theorem lift_steps (hphase : s.phase = .loaded) {evd : List (Transport.Event α n)}
    {d : Transport.State α n}
    (h : Steps (Transport.Step cfg (hosts s.load)) s.driver evd d) :
    ∃ s', Steps (Step cfg hosts) s (evd.map .driver) s' ∧ s'.driver = d ∧ s'.phase = .loaded ∧
      s'.load = s.load := by
  induction h with
  | refl => exact ⟨s, .refl s, rfl, hphase, rfl⟩
  | tail _ hs ih =>
    obtain ⟨s', hsteps, rfl, hphase', hload⟩ := ih
    rw [List.map_append]
    exact ⟨_, hsteps.tail (.run hphase' (hload ▸ hs)), rfl, hphase', hload⟩

/-- Every run of the driver is one of a client that its servers have let load. -/
theorem exists_loaded (hpos : 0 < (hosts 0).numcpus) (hprocs : (hosts 0).numcpus ≤ Server.numProcs)
    {trd : List (Transport.Event α n)} {d : Transport.State α n}
    (h : (Transport.system cfg (hosts 0) n memory).Run trd d) :
    ∃ tr s, (system cfg hosts n memory).Run tr s ∧ Orderly tr ∧ s.driver = d := by
  have hqueues : Server.numQueues = Server.numProcs * 3 := rfl
  have hN : numqueuesPerserver (numcpus hosts 0) = (hosts 0).numcpus * 3 := rfl
  obtain ⟨d₀, hd₀, hsteps⟩ := h.exists_steps
  have hstart : (system cfg hosts n memory).Run [] _ := .start ⟨d₀, hd₀, rfl⟩
  obtain ⟨s₁, ⟨ev₁, hs₁, ho₁, hdriver⟩, hloaded⟩ :=
    reaches_loaded (by omega) (by omega) rfl hstart orderly_nil
  have hrun₁ := hstart.steps hs₁
  have hload : s₁.load = 0 := by
    obtain ⟨trt, hfirst⟩ := (run_loads rfl hrun₁ ho₁).firstLoad (by omega) Nat.zero_lt_two
    exact hfirst.load
  obtain ⟨s, hs, hd, -⟩ : ∃ s, Steps (Step cfg hosts) s₁ (trd.map .driver) s ∧ s.driver = d ∧
      s.phase = .loaded ∧ s.load = s₁.load :=
    lift_steps hloaded (by rw [hload, hdriver]; exact hsteps)
  exact ⟨_, s, hrun₁.steps hs, ho₁.append (orderly_driver trd), hd⟩

/-- Of two writes in flight, the one of the second processor is served by its server. -/
theorem access_granted_posted : ∃ (s : State ℕ 4) (r : Queue.Req),
    r ∈ (s.driver.queues ⟨1, 13⟩).inflight ∧ Grants (s.pair 1).server (s.access ⟨1, 13⟩ r) := by
  obtain ⟨trd, d, -, r, hrun, -, -, hr, -⟩ := Transport.exists_inflight
  obtain ⟨tr, s, h, ho, rfl⟩ : ∃ tr s,
      (system (initScheduler false) (fun _ => ⟨6, false⟩) 4 fun _ _ => 0).Run tr s ∧ Orderly tr ∧
        s.driver = d := exists_loaded (by decide) (by decide) hrun
  obtain ⟨hserver, -, hiff⟩ := access_granted false (by decide) h hr
  obtain ⟨trt, hload⟩ := (run_loads rfl h ho).firstLoad (by decide) hserver
  exact ⟨s, r, hr, hiff.mp hload.loops⟩

end Multiswap.Cluster
