import Multiswap.Cluster.Defs
import Multiswap.Pairing.Handover
import Multiswap.Server.Table
import Multiswap.Transport.Placement

/-!
# What the work requests ask for

A region that the client has received is the one that its server has registered, for as
long as the server is in its event loops. Hence every work request in flight is on a queue
that the client has connected, and asks for a page in that region under its key.
-/

namespace Multiswap.Cluster

open Concurrent (Fits)
open Pairing (act)
open Rdma (Host QpType numServer sswapRdmaGetQueue)
open Server (Globals MemRegion Process)
open Transport (QueueId)

section Servers

variable {κ : Type} [DecidableEq κ] {v : Server.Verbs} {g g' : Globals κ} {mr : MemRegion}

/-- No handler replaces the region. -/
theorem device_onEvent {e : Server.CmEvent κ} {ret : ℤ} (hok : Server.onEvent v e g = .ok ret g')
    (hd : g.device = some mr) : g'.device = some mr := by
  cases e with
  | connectRequest id param =>
    obtain ⟨-, q, -, -, rfl⟩ := Server.onConnectRequest_ok hok
    simp [Globals.accepted, hd]
  | established id =>
    simp only [Server.onEvent, StateError.bind_eq_ok, StateError.get_apply,
      EStateM.Result.ok.injEq, Server.deref_eq_ok] at hok
    obtain ⟨_, _, ⟨rfl, rfl⟩, q, _, ⟨-, rfl⟩, hok⟩ := hok
    obtain ⟨-, -, sent, -, -, rfl⟩ := Server.onConnection_ok hok
    exact hd
  | disconnected id =>
    simp only [Server.onEvent, StateError.bind_eq_ok, StateError.get_apply,
      EStateM.Result.ok.injEq, Server.deref_eq_ok, StateError.pure_apply] at hok
    obtain ⟨_, _, ⟨rfl, rfl⟩, q, _, ⟨-, rfl⟩, _, _, hok, -, rfl⟩ := hok
    obtain ⟨-, ⟨-, rfl⟩ | ⟨c, -, -, rfl⟩⟩ := Server.onDisconnect_ok hok
    · exact hd
    · exact hd
  | other id =>
    simp only [Server.onEvent, StateError.pure_apply, EStateM.Result.ok.injEq] at hok
    exact hok.2 ▸ hd

/-- A server that goes on keeps its region. -/
theorem device_turn {p : Process κ} {event : Option (Server.CmEvent κ)}
    (hin : (p.turn v event).InLoops) :
    p.InLoops ∧ (p.globals.device = some mr → (p.turn v event).globals.device = some mr) := by
  have hp : p.InLoops := by
    by_contra hp
    have hstays : p.turn v event = p := Server.turn_of_not_inLoops hp v event
    exact hp (hstays ▸ hin)
  refine ⟨hp, fun hd => ?_⟩
  cases event with
  | none => rw [Server.turn_none_globals hin, hd]
  | some e =>
    obtain ⟨ret, hok⟩ := Server.onEvent_of_inLoops hp hin
    exact device_onEvent hok hd

end Servers

section Pairs

variable {numcpus : ℕ → ℕ} {s s' : Pairing.State} {ev : List (Server.CmEvent Pairing.Link)}
  {a : Pairing.Action}

/-- Only the end of a load starts the next one. -/
theorem act_load (h : act numcpus s a = some (ev, s')) (ha : a ≠ .stop) : s'.load = s.load := by
  cases Pairing.act_moves h with
  | stop => exact absurd rfl ha
  | connect | established | serve | other | noEvent => rfl

/-- What the server does is not seen in the queues that the client has connected. -/
theorem act_up (h : act numcpus s a = some (ev, s')) (hstop : a ≠ .stop)
    (hest : a ≠ .established) : s'.up = s.up := by
  cases Pairing.act_moves h with
  | stop => exact absurd rfl hstop
  | established => exact absurd rfl hest
  | connect | serve | other | noEvent => rfl

/-- The server goes on, with its region, or the step was its end. -/
theorem act_device {mr : MemRegion} (h : act numcpus s a = some (ev, s'))
    (hin : s'.server.InLoops) : s.server.InLoops ∧
      (s.server.globals.device = some mr → s'.server.globals.device = some mr) := by
  cases Pairing.act_moves h with
  | serve | other | noEvent => exact device_turn hin
  | connect | established | stop => exact ⟨hin, id⟩

end Pairs

section Queues

variable {α : Type} {n : ℕ} {cfg : Config} {host : Host} {memory : ℕ → ℕ → α}
  {tr ev : List (Transport.Event α n)} {d d' : Transport.State α n}

/-- The queues that calls pick are those of a processor that is online. -/
theorem via_idx (h : (Transport.system cfg host n memory).Run tr d) :
    ∀ p q, d.via p = some q → q.idx < Pairing.numqueuesPerserver host.numcpus := by
  refine h.invariant (I := fun _ d => ∀ p q, d.via p = some q →
    q.idx < Pairing.numqueuesPerserver host.numcpus) (fun d hd => ?_)
    fun tr d ev d' _ hi hs => ?_
  · obtain ⟨pages, rfl⟩ := hd
    intro p q hvia
    cases hvia
  · cases hs with
    | callStore | callLoad | schedule | internal | post => exact hi
    | complete q status hin =>
      obtain ⟨-, -, hvia, -⟩ := Transport.moveData_eq d q _ status
      intro p q' hq
      exact hi p q' (hvia ▸ hq)
    | leave q p₀ hq =>
      intro p q' hvia
      by_cases hp : p = p₀
      · subst hp
        simp at hvia
      · exact hi p q' (by simpa [hp] using hvia)
    | @start p₀ x q cpuid hx hnone hdev hcpu hq =>
      intro p q' hvia
      by_cases hp : p = p₀
      · subst hp
        simp only [Function.update_self, Option.some.injEq] at hvia
        subst hvia hq
        cases hop : x.opcode <;>
          simp only [Transport.queueType, sswapRdmaGetQueue, Pairing.numqueuesPerserver] <;> omega
      · exact hi p q' (by simpa [hp] using hvia)

/-- A step of one queue that posts nothing. -/
theorem inflight_update {queues : QueueId → Queue.State (Fin n)} {q q₀ : QueueId}
    {u : Queue.State (Fin n)} {r : Queue.Req} (hu : ∀ r ∈ u.inflight, r ∈ (queues q₀).inflight)
    (hr : r ∈ (Function.update queues q₀ u q).inflight) : r ∈ (queues q).inflight := by
  by_cases hq : q = q₀
  · subst hq
    exact hu r (by simpa using hr)
  · simpa [hq] using hr

/-- A request in flight is being posted, or it was in flight before and asks for the same. -/
theorem inflight_step (hi : Transport.Inv tr d) (hs : Transport.Step cfg host d ev d') {q : QueueId}
    {r : Queue.Req} (hr : r ∈ (d'.queues q).inflight) :
    (∃ i, ev = [.onQueue q (.posted i r)]) ∨ (∀ i, .onQueue q (.posted i r) ∉ ev) ∧
      r ∈ (d.queues q).inflight ∧ d'.roffset q r = d.roffset q r := by
  cases hs with
  | callStore | callLoad => exact .inr ⟨by simp, hr, rfl⟩
  | schedule => exact .inr ⟨by simp, hr, rfl⟩
  | start => exact .inr ⟨by simp, inflight_update (fun _ h => by exact h) hr, rfl⟩
  | internal q₀ hin =>
    obtain ⟨-, hsame⟩ := Transport.internal_drift hin (Queue.run_ownRequests (hi.runs q₀))
    refine .inr ⟨fun i hmem => ?_, inflight_update (fun r hr => hsame ▸ hr) hr, rfl⟩
    obtain ⟨e, he, heq⟩ := List.mem_map.mp hmem
    cases heq
    exact hin.posts i r he
  | @post q₀ p₀ x r₀ u hx hs =>
    obtain ⟨-, -, hin, -⟩ := hi.posts hs
    by_cases hqr : q = q₀ ∧ r = r₀
    · obtain ⟨rfl, rfl⟩ := hqr
      exact .inl ⟨p₀, rfl⟩
    · refine .inr ⟨fun i hmem => ?_, ?_, ?_⟩
      · cases List.mem_singleton.mp hmem
        exact hqr ⟨rfl, rfl⟩
      · by_cases hq : q = q₀
        · subst hq
          have hne : r ≠ r₀ := fun heq => hqr ⟨rfl, heq⟩
          simpa [Transport.State.setQueue, hin, hne] using hr
        · simpa [Transport.State.setQueue, hq] using hr
      · by_cases hq : q = q₀
        · subst hq
          simp [show r ≠ r₀ from fun heq => hqr ⟨rfl, heq⟩]
        · simp [hq]
  | @complete q₀ before after r₀ status hin =>
    obtain ⟨-, -, -, hqueues, hoff⟩ := Transport.moveData_eq d q₀ r₀ status
    refine .inr ⟨by simp, ?_, by simp [Transport.State.setQueue, hoff]⟩
    rw [← hqueues]
    refine inflight_update (fun r' hr' => ?_) hr
    rw [hqueues, hin]
    exact List.mem_append.mpr ((List.mem_append.mp hr').imp_right (List.mem_cons_of_mem _))
  | leave q₀ p₀ hq =>
    obtain ⟨-, -, hin, -⟩ := hi.leaves hq
    exact .inr ⟨by simp, inflight_update (fun r hr => hin ▸ hr) hr, rfl⟩

end Queues

/-- The queues to server `t` are connected. -/
def Phase.Connected (t : ℕ) : Phase → Prop
  | .connecting j => t < j
  | .receiving _ | .loaded => t < numServer

/-- The memory region of server `t` has been received. -/
def Phase.Received (t : ℕ) : Phase → Prop
  | .connecting _ => False
  | .receiving j => t < j
  | .loaded => t < numServer

theorem connected_afterConnecting {t t' : ℕ} (h : (Phase.afterConnecting t).Connected t') :
    t' < t + 1 := by
  unfold Phase.afterConnecting at h
  split at h
  · exact h
  · have hlt : t' < numServer := h
    omega

theorem not_received_afterConnecting {t t' : ℕ} : ¬ (Phase.afterConnecting t).Received t' := by
  unfold Phase.afterConnecting
  split
  · exact id
  · exact Nat.not_lt_zero t'

theorem connected_afterReceiving {t t' : ℕ} (h : (Phase.afterReceiving t).Connected t') :
    t' < numServer := by
  unfold Phase.afterReceiving at h
  split at h <;> exact h

theorem received_afterReceiving {t t' : ℕ} (h : (Phase.afterReceiving t).Received t') :
    t' < t + 1 := by
  unfold Phase.afterReceiving at h
  split at h
  · exact h
  · have hlt : t' < numServer := h
    omega

/-- The client connects to one server at a time. -/
theorem Allows.ne_stop {t : ℕ} {phase : Phase} {a : Pairing.Action} (h : Allows t phase a) :
    a ≠ .stop := by
  rintro rfl
  cases phase <;> exact h

theorem Allows.ne_established {t : ℕ} {phase : Phase} {a : Pairing.Action} (h : Allows t phase a)
    (hc : phase.Connected t) : a ≠ .established := by
  rintro rfl
  cases phase with
  | connecting j =>
    have hj : t = j := h
    exact absurd hc (hj ▸ Nat.lt_irrefl t)
  | receiving | loaded => exact h

variable {α : Type} {n : ℕ} {cfg : Config} {hosts : ℕ → Host} {memory : ℕ → ℕ → α}
  {tr ev : List (Event α n)} {s s' : State α n}

/-- What holds of the client and of its servers at all times. -/
structure Inv (cfg : Config) (hosts : ℕ → Host) (memory : ℕ → ℕ → α) (s : State α n) : Prop where
  loads : ∀ t, (s.pair t).load = s.load
  servers : ∀ t, ∃ tr, Pairing.Invariant tr (s.pair t)
  connected : ∀ t, s.phase.Connected t → (s.pair t).Complete (numcpus hosts)
  received : ∀ t, s.phase.Received t → (s.pair t).server.InLoops →
    (s.pair t).server.globals.device = some (s.servermr t)
  -- No store or load runs before the module is loaded.
  quiet : s.phase ≠ .loaded → (Transport.system cfg (hosts s.load) n memory).init s.driver
  driver : ∃ tr, (Transport.system cfg (hosts s.load) n memory).Run tr s.driver
  access : ∀ q, ∀ r ∈ (s.driver.queues q).inflight,
    s.access q r = accessOf (s.servermr q.dev) (s.driver.roffset q r)

/-- Before the module is loaded nothing is in flight. -/
theorem Inv.inflight_nil (h : Inv cfg hosts memory s) (hl : s.phase ≠ .loaded) (q : QueueId) :
    (s.driver.queues q).inflight = [] := by
  obtain ⟨pages, hd⟩ := h.quiet hl
  rw [hd]
  rfl

theorem Inv.pair (h : Inv cfg hosts memory s) {t : ℕ} {a : Pairing.Action}
    {ev : List (Server.CmEvent Pairing.Link)} {p : Pairing.State} (ha : Allows t s.phase a)
    (hact : act (numcpus hosts) (s.pair t) a = some (ev, p)) :
    Inv cfg hosts memory { s with pair := Function.update s.pair t p } := by
  have hload : ∀ t', (Function.update s.pair t p t').load = (s.pair t').load := by
    intro t'
    by_cases ht : t' = t
    · subst ht
      rw [Function.update_self]
      exact act_load hact ha.ne_stop
    · rw [Function.update_of_ne ht]
  have hloads : State.load { s with pair := Function.update s.pair t p } = s.load := hload 0
  constructor
  · intro t'
    rw [hloads]
    exact (hload t').trans (h.loads t')
  · intro t'
    by_cases ht : t' = t
    · subst ht
      obtain ⟨tr, htr⟩ := h.servers t'
      exact ⟨_, by simpa using htr.step hact⟩
    · simpa [ht] using h.servers t'
  · intro t' hc
    have hcomplete := h.connected t' hc
    by_cases ht : t' = t
    · subst ht
      show (Function.update s.pair t' p t').Complete (numcpus hosts)
      rw [Function.update_self, Pairing.State.Complete, act_load hact ha.ne_stop,
        act_up hact ha.ne_stop (ha.ne_established hc)]
      exact hcomplete
    · simpa [ht] using hcomplete
  · intro t' hr hin
    by_cases ht : t' = t
    · subst ht
      simp only [Function.update_self] at hin ⊢
      obtain ⟨hin', hdevice⟩ := act_device hact hin
      exact hdevice (h.received t' hr hin')
    · simp only [Function.update_of_ne ht] at hin ⊢
      exact h.received t' hr hin
  · rw [hloads]
    exact h.quiet
  · rw [hloads]
    exact h.driver
  · exact h.access

theorem Inv.connect (h : Inv cfg hosts memory s) {t : ℕ} (hphase : s.phase = .connecting t)
    (hcomplete : (s.pair t).Complete (numcpus hosts)) :
    Inv cfg hosts memory { s with phase := .afterConnecting t } := by
  refine ⟨h.loads, h.servers, fun t' hc => ?_, fun t' hr => ?_, fun _ => ?_, h.driver, h.access⟩
  · rcases Nat.lt_succ_iff_lt_or_eq.mp (connected_afterConnecting hc) with hlt | rfl
    · exact h.connected t' (by rwa [hphase])
    · exact hcomplete
  · exact absurd hr not_received_afterConnecting
  · exact h.quiet (by simp [hphase])

theorem Inv.receive (h : Inv cfg hosts memory s) {t : ℕ} {mr : MemRegion}
    (hphase : s.phase = .receiving t)
    (hsent : .postSend ((s.pair t).link 0) mr ∈ (s.pair t).server.globals.calls) :
    Inv cfg hosts memory { s with
      servermr := Function.update s.servermr t mr
      phase := .afterReceiving t } := by
  have hl : s.phase ≠ .loaded := by simp [hphase]
  refine ⟨h.loads, h.servers, fun t' hc => ?_, fun t' hr hin => ?_, fun _ => h.quiet hl, h.driver,
    fun q r hr => ?_⟩
  · exact h.connected t' (by rw [hphase]; exact connected_afterReceiving hc)
  · show (s.pair t').server.globals.device = some (Function.update s.servermr t mr t')
    rcases Nat.lt_succ_iff_lt_or_eq.mp (received_afterReceiving hr) with hlt | rfl
    · rw [Function.update_of_ne (Nat.ne_of_lt hlt)]
      exact h.received t' (by rwa [hphase]) hin
    · obtain ⟨tr, htr⟩ := h.servers t'
      rw [Function.update_self]
      exact (htr.records hin).region _ mr hsent
  · rw [h.inflight_nil hl q] at hr
    cases hr

theorem Inv.fail (h : Inv cfg hosts memory s) {pair : ℕ → Pairing.State} (hl : s.phase ≠ .loaded)
    (hstop : ∀ t, act (numcpus hosts) (s.pair t) .stop = some ([], pair t)) :
    Inv cfg hosts memory
      { s with pair := pair, phase := .connecting 0, servermr := fun _ => ⟨0, 0⟩ } := by
  have hload : ∀ t, (pair t).load = s.load + 1 := by
    intro t
    have hact := hstop t
    simp only [act, Option.some.injEq, Prod.mk.injEq, true_and] at hact
    rw [← hact, ← h.loads t]
  refine ⟨fun t => (hload t).trans (hload 0).symm, fun t => ?_, fun t hc => ?_, fun t hr => ?_,
    fun _ => h.quiet hl, ⟨[], .start (h.quiet hl)⟩, fun q r hr => ?_⟩
  · obtain ⟨tr, htr⟩ := h.servers t
    exact ⟨_, htr.step (hstop t)⟩
  · exact absurd hc (Nat.not_lt_zero t)
  · exact absurd hr id
  · rw [h.inflight_nil hl q] at hr
    cases hr

/-- A request that is not posted by the step keeps its access. -/
theorem foldl_posted {servermr : ℕ → MemRegion} {d : Transport.State α n}
    {evd : List (Transport.Event α n)} {access : QueueId → Queue.Req → Access} {q : QueueId}
    {r : Queue.Req} (h : ∀ i, .onQueue q (.posted i r) ∉ evd) :
    evd.foldl (posted servermr d) access q r = access q r := by
  induction evd generalizing access with
  | nil => rfl
  | cons e evd ih =>
    rw [List.foldl_cons, ih fun i hi => h i (List.mem_cons_of_mem _ hi)]
    unfold posted
    split
    · next q' i r' =>
      by_cases hq : q = q'
      · subst hq
        have hr : r ≠ r' := by
          rintro rfl
          exact h i (by simp)
        rw [Function.update_self, Function.update_of_ne hr]
      · rw [Function.update_of_ne hq]
    · rfl

theorem Inv.run (h : Inv cfg hosts memory s) {evd : List (Transport.Event α n)}
    {d : Transport.State α n} (hphase : s.phase = .loaded)
    (hs : Transport.Step cfg (hosts s.load) s.driver evd d) :
    Inv cfg hosts memory
      { s with driver := d, access := evd.foldl (posted s.servermr d) s.access } := by
  obtain ⟨trd, hrun⟩ := h.driver
  refine ⟨h.loads, h.servers, h.connected, h.received, fun hl => absurd hphase hl,
    ⟨_, hrun.step hs⟩, fun q r hr => ?_⟩
  rcases inflight_step (Transport.run_inv hrun) hs hr with ⟨i, rfl⟩ | ⟨hposts, hr', hoff⟩
  · simp [posted]
  · show evd.foldl (posted s.servermr d) s.access q r = _
    rw [foldl_posted hposts, hoff]
    exact h.access q r hr'

theorem Inv.step (h : Inv cfg hosts memory s) (hs : Step cfg hosts s ev s') :
    Inv cfg hosts memory s' := by
  cases hs with
  | pair t a ht ha hact => exact h.pair ha hact
  | connected hphase hcomplete => exact h.connect hphase hcomplete
  | receive hphase hsent => exact h.receive hphase hsent
  | fail hl hstop => exact h.fail hl hstop
  | run hphase hs => exact h.run hphase hs

theorem run_inv (h : (system cfg hosts n memory).Run tr s) : Inv cfg hosts memory s := by
  refine h.invariant (I := fun _ s => Inv cfg hosts memory s) (fun s hs => ?_)
    fun _ _ _ _ _ hi hs => hi.step hs
  obtain ⟨d, hd, rfl⟩ := hs
  refine ⟨fun _ => rfl, fun _ => ⟨[], Pairing.invariant_initial⟩, fun t hc => ?_, fun t hr => ?_,
    fun _ => hd, ⟨[], .start hd⟩, fun q r hr => ?_⟩
  · exact absurd hc (Nat.not_lt_zero t)
  · exact absurd hr id
  · obtain ⟨pages, rfl⟩ := hd
    cases hr

/-- Every work request in flight is on a queue that the client has connected, and the network
card of its server serves it as long as the server is in its event loops: it asks, under the
key of the registered region, for a page in this region. As in `Multiswap.Transport`, every
`xa_store` succeeds and the processors have numbers below `numcpus`. -/
theorem access_granted (debugVm : Bool) (hn : n ≤ remoteBufSize >>> pageShift)
    (h : (system (initScheduler debugVm) hosts n memory).Run tr s) {q : QueueId} {r : Queue.Req}
    (hr : r ∈ (s.driver.queues q).inflight) :
    q.dev < numServer ∧ q.idx < (s.pair q.dev).up ∧
      ((s.pair q.dev).server.InLoops ↔ Grants (s.pair q.dev).server (s.access q r)) := by
  have hi := run_inv h
  have hl : s.phase = .loaded := by
    by_contra hl
    rw [hi.inflight_nil hl q] at hr
    cases hr
  obtain ⟨trd, hrun⟩ := hi.driver
  have hf := Concurrent.fits_initScheduler debugVm hn
  obtain ⟨p, hvia, -, -, hx⟩ := (Transport.run_inv hrun).request hr
  obtain ⟨hserver, hbuffer⟩ := (Transport.driver_placed hf hrun).inside hf hx
  have hcomplete := hi.connected q.dev (by rw [hl]; exact hserver)
  refine ⟨hserver, ?_, fun hin => ⟨hin, s.servermr q.dev, s.driver.roffset q r, ?_, hbuffer, ?_⟩,
    fun hgrants => hgrants.1⟩
  · rw [hcomplete, hi.loads]
    exact via_idx hrun p q hvia
  · exact hi.received q.dev (by rw [hl]; exact hserver) hin
  · exact hi.access q r hr

end Multiswap.Cluster
