import Multiswap.Pairing.Handover
import Multiswap.Server.Lifetime

/-!
# The first load, with nothing in its way

The client connects one queue after the other, the server handles the events in any order,
and no library call fails. Then the server does not leave its event loops, unless it runs
out of entries, and the load gets on as far as the client wants.
-/

namespace Multiswap.Pairing

open Server
open StateError

/-- The client goes on, or the server handles a pending event and no library call fails. -/
def Action.Orderly : Action → Prop
  | .connect | .established => True
  | .serve v _ => ∀ t, v.fails t = false
  | .stop | .other .. | .noEvent _ => False

/-- The connections that were established among some events. -/
def connections {κ : Type} (tr : List (CmEvent κ)) : List κ := tr.filterMap fun
  | .established id => some id
  | _ => none

theorem connections_append {κ : Type} (tr ev : List (CmEvent κ)) :
    connections (tr ++ ev) = connections tr ++ connections ev := List.filterMap_append

/-- The first `k` queues of the first load. -/
def firstLinks (k : ℕ) : List Link := (List.range k).map fun q => ⟨0, q⟩

theorem firstLinks_succ (k : ℕ) : firstLinks (k + 1) = firstLinks k ++ [⟨0, k⟩] := by
  simp [firstLinks, List.range_succ]

theorem getElem?_firstLinks {k q : ℕ} {id : Link} (h : (firstLinks k)[q]? = some id) :
    id = ⟨0, q⟩ := by
  obtain ⟨hlt, rfl⟩ := List.getElem?_eq_some_iff.mp h
  simp [firstLinks]

theorem mem_firstLinks {k : ℕ} {id : Link} : id ∈ firstLinks k ↔ ∃ q < k, id = ⟨0, q⟩ := by
  simp [firstLinks, eq_comm]

theorem nodup_firstLinks (k : ℕ) : (firstLinks k).Nodup :=
  List.nodup_range.map fun q q' h => by simpa using h

/-- Where the request for the next queue is. -/
inductive Asked (tr : List (CmEvent Link)) (s : State) : Prop
  | idle : s.requested = false → requests tr = firstLinks s.up → requests s.pending = [] → Asked tr s
  | sent : s.requested = true → requests tr = firstLinks s.up →
      requests s.pending = [⟨0, s.up⟩] → Asked tr s
  | accepted : s.requested = true → requests tr = firstLinks (s.up + 1) →
      requests s.pending = [] → Asked tr s

theorem Asked.links {tr : List (CmEvent Link)} {s : State} (h : Asked tr s) :
    ∃ k, requests tr = firstLinks k := by
  cases h with
  | idle _ htr | sent _ htr | accepted _ htr => exact ⟨_, htr⟩

/-- The first load on its way to `N` queues. -/
structure FirstLoad (N : ℕ) (tr : List (CmEvent Link)) (s : State) : Prop where
  load : s.load = 0
  up : s.up ≤ N
  requested : s.requested = true → s.up < N
  loops : s.server.InLoops
  server : LoopInv s.server
  entries : s.server.globals.queueCtr ≤ numQueues
  records : Records tr s.server.globals
  asked : Asked tr s
  answered : ∀ id ∈ requests tr, s.accepts id = true
  seen : (connections (tr ++ s.pending)).Perm (firstLinks s.up)
  kinds : ∀ e ∈ s.pending, (∃ id param, e = .connectRequest id param) ∨ ∃ id, e = .established id
  connected : ∀ q : Fin numQueues, (s.server.globals.queues q).state = .connected →
    ⟨0, q⟩ ∈ connections tr

/-- The server has ended, and the client waits for it. -/
structure Stuck (N : ℕ) (s : State) : Prop where
  load : s.load = 0
  loops : ¬ s.server.InLoops
  requested : s.requested = true
  up : s.up < N
  refused : s.accepts (s.link s.up) = false

/-- Nothing helps a load that stands still. -/
theorem Stuck.act {N : ℕ} {s : State} (h : Stuck N s) {numcpus : ℕ → ℕ} {a : Action}
    (ha : a.Orderly) : act numcpus s a = none := by
  cases a with
  | connect => simp [Pairing.act, h.requested]
  | established => simp [Pairing.act, h.refused]
  | serve v k => exact if_neg h.loops
  | stop | other | noEvent => exact absurd ha id

variable {N : ℕ} {tr : List (CmEvent Link)} {s : State}

theorem firstLoad_initial (N : ℕ) : FirstLoad N [] State.initial where
  load := rfl
  up := Nat.zero_le N
  requested h := by cases h
  loops := trivial
  server := loopInv_initial
  entries := Nat.zero_le _
  records := records_initial
  asked := .idle rfl rfl rfl
  answered _ h := by cases h
  seen := .refl _
  kinds _ h := by cases h
  connected _ h := by cases h

namespace FirstLoad

theorem connect (h : FirstLoad N tr s) (hup : s.up < N) (hrequested : s.requested = false) :
    FirstLoad N tr { s with
      requested := true
      pending := s.pending ++ [.connectRequest (s.link s.up) connParam] } := by
  have hlink : s.link s.up = ⟨0, s.up⟩ := by rw [State.link, h.load]
  constructor
  · exact h.load
  · exact h.up
  · exact fun _ => hup
  · exact h.loops
  · exact h.server
  · exact h.entries
  · exact h.records
  · cases h.asked with
    | idle _ htr hpending =>
      refine .sent rfl htr ?_
      rw [requests_append, hpending, hlink]
      rfl
    | sent hreq | accepted hreq =>
      rw [hrequested] at hreq
      cases hreq
  · exact h.answered
  · have hsame : connections (tr ++ (s.pending ++ [.connectRequest (s.link s.up) connParam])) =
        connections (tr ++ s.pending) := by simp [connections]
    rw [hsame]
    exact h.seen
  · intro e he
    rcases List.mem_append.mp he with he | he
    · exact h.kinds e he
    · exact .inl ⟨_, _, List.mem_singleton.mp he⟩
  · exact h.connected

/-- The client sees only connections that the server has accepted. -/
theorem asked_of_accepts (h : FirstLoad N tr s) (hrequested : s.requested = true)
    (haccepts : s.accepts (s.link s.up) = true) :
    requests tr = firstLinks (s.up + 1) ∧ requests s.pending = [] := by
  have hlink : s.link s.up = ⟨0, s.up⟩ := by rw [State.link, h.load]
  have hmem : (⟨0, s.up⟩ : Link) ∈ requests tr := by
    obtain ⟨c, hc, hacc⟩ := List.any_eq_true.mp haccepts
    cases c with
    | accept id param =>
      have hid : id = s.link s.up := by simpa using hacc
      exact hlink ▸ hid ▸ h.records.accepted id param hc
    | _ => cases hacc
  cases h.asked with
  | idle hreq =>
    rw [hrequested] at hreq
    cases hreq
  | sent _ htr =>
    rw [htr, mem_firstLinks] at hmem
    obtain ⟨q, hlt, heq⟩ := hmem
    cases heq
    exact absurd hlt (Nat.lt_irrefl _)
  | accepted _ htr hpending => exact ⟨htr, hpending⟩

theorem establish (h : FirstLoad N tr s) (hrequested : s.requested = true)
    (haccepts : s.accepts (s.link s.up) = true) :
    FirstLoad N tr { s with
      up := s.up + 1
      requested := false
      pending := s.pending ++ [.established (s.link s.up)] } := by
  have hlink : s.link s.up = ⟨0, s.up⟩ := by rw [State.link, h.load]
  obtain ⟨htr, hpending⟩ := h.asked_of_accepts hrequested haccepts
  constructor
  · exact h.load
  · exact h.requested hrequested
  · intro hreq
    cases hreq
  · exact h.loops
  · exact h.server
  · exact h.entries
  · exact h.records
  · refine .idle rfl htr ?_
    rw [requests_append, hpending]
    rfl
  · exact h.answered
  · have happ : connections (tr ++ (s.pending ++ [.established (s.link s.up)])) =
        connections (tr ++ s.pending) ++ [⟨0, s.up⟩] := by simp [connections, hlink]
    rw [happ, firstLinks_succ]
    exact h.seen.append_right _
  · intro e he
    rcases List.mem_append.mp he with he | he
    · exact h.kinds e he
    · exact .inr ⟨_, List.mem_singleton.mp he⟩
  · exact h.connected

/-- A pending request is that of the next queue, and no other one is pending. -/
theorem asked_of_request (h : FirstLoad N tr s) {k : ℕ} {id : Link} {param : ConnParam}
    (he : s.pending[k]? = some (.connectRequest id param)) :
    id = ⟨0, s.up⟩ ∧ s.requested = true ∧ requests tr = firstLinks s.up ∧
      requests (s.pending.eraseIdx k) = [] := by
  have hperm : (requests s.pending).Perm (id :: requests (s.pending.eraseIdx k)) :=
    (@serve_perm [] s k _ he).filterMap _
  cases h.asked with
  | idle _ _ hpending | accepted _ _ hpending =>
    rw [hpending] at hperm
    cases hperm.nil_eq
  | sent hrequested htr hpending =>
    rw [hpending] at hperm
    obtain ⟨rfl, hrest⟩ := List.cons.inj (List.singleton_perm.mp hperm).symm
    exact ⟨rfl, hrequested, htr, hrest.symm ▸ rfl⟩

/-- A pending connection was accepted, and the server has not seen it established. -/
theorem asked_of_established (h : FirstLoad N tr s) {k : ℕ} {id : Link}
    (he : s.pending[k]? = some (.established id)) :
    ∃ q < s.up, id = ⟨0, q⟩ ∧ (requests tr)[q]? = some id ∧ id ∉ connections tr := by
  have hpending : id ∈ connections s.pending :=
    List.mem_filterMap.mpr ⟨_, List.mem_of_getElem? he, rfl⟩
  have happ := connections_append tr s.pending
  have hmem : id ∈ connections (tr ++ s.pending) := by
    rw [happ]
    exact List.mem_append_right _ hpending
  obtain ⟨q, hq, rfl⟩ := mem_firstLinks.mp (h.seen.mem_iff.mp hmem)
  refine ⟨q, hq, rfl, ?_, fun hseen => ?_⟩
  · have hget : ∀ k, q < k → (firstLinks k)[q]? = some ⟨0, q⟩ := by
      intro k hk
      simp [firstLinks, hk]
    cases h.asked with
    | idle _ htr | sent _ htr => rw [htr, hget s.up hq]
    | accepted _ htr => rw [htr, hget (s.up + 1) (Nat.lt_succ_of_lt hq)]
  · have hnodup : (connections tr ++ connections s.pending).Nodup := by
      rw [← happ]
      exact h.seen.nodup_iff.mpr (nodup_firstLinks s.up)
    exact List.disjoint_of_nodup_append hnodup hseen hpending

/-- A connect request is accepted as long as there are entries. -/
theorem accepts_request {v : Verbs} {g : Globals Link} (hv : ∀ t, v.fails t = false)
    (htable : TableInv g) (hlt : g.queueCtr < numQueues) (id : Link) (param : ConnParam) :
    ∃ ret g', onConnectRequest v id param g = .ok ret g' := by
  have hinit := (htable.unused ⟨g.queueCtr, hlt⟩ (Nat.le_refl _)).2
  cases hdev : g.device <;>
    simp [onConnectRequest, getDevice, createQp, test, deref, hlt, hinit, hdev, hv]

/-- The entries that the server has given away. -/
theorem queueCtr_eq (h : FirstLoad N tr s) {k : ℕ} (htr : requests tr = firstLinks k) :
    s.server.globals.queueCtr = k := by
  rw [h.records.assigned.queueCtr, htr, firstLinks, List.length_map, List.length_range]

/-- The client has connected no more queues than the server has entries. -/
theorem up_le (h : FirstLoad N tr s) : s.up ≤ numQueues := by
  have hentries := h.entries
  cases h.asked with
  | idle _ htr | sent _ htr => rwa [h.queueCtr_eq htr] at hentries
  | accepted _ htr =>
    rw [h.queueCtr_eq htr] at hentries
    exact Nat.le_of_succ_le hentries

/-- The server sees the connections that are established. -/
theorem handles_established (h : FirstLoad N tr s) {v : Verbs} (hv : ∀ t, v.fails t = false) {k : ℕ}
    {id : Link} (he : s.pending[k]? = some (.established id)) :
    ∃ g, onEvent v (.established id) s.server.globals = .ok 0 g := by
  obtain ⟨q, hup, rfl, hget, hnot⟩ := h.asked_of_established he
  have hq : q < numQueues := Nat.lt_of_lt_of_le hup h.up_le
  have hinit : (s.server.globals.queues ⟨q, hq⟩).state = .init := by
    cases hstate : (s.server.globals.queues ⟨q, hq⟩).state with
    | init => rfl
    | connected => exact absurd (h.connected ⟨q, hq⟩ hstate) hnot
  obtain ⟨ret, g, hok⟩ := (established_returns h.server.table (h.server.setUp h.loops)).mpr
    ⟨⟨q, hq⟩, (h.records.assigned.context _ _).mpr hget, hinit, fun _ => hv _⟩
  cases established_ret hok
  exact ⟨g, hok⟩

section Serve

variable {v : Verbs} {k : ℕ} {e : CmEvent Link} {g : Globals Link}

/-- The server has handled an event and goes on with the memory `g`. -/
theorem served (h : FirstLoad N tr s) (he : s.pending[k]? = some e)
    (hok : onEvent v e s.server.globals = .ok 0 g) (hfresh : ∀ id ∈ requests [e], id ∉ requests tr)
    (hasked : Asked (tr ++ [e]) { s with pending := s.pending.eraseIdx k })
    (hentries : g.queueCtr ≤ numQueues)
    (hcalls : ∃ more, g.calls = s.server.globals.calls ++ more ∧
      ∀ id ∈ requests [e], ∃ param, .accept id param ∈ more)
    (hconnected : ∀ q : Fin numQueues, (g.queues q).state = .connected →
      ⟨0, q⟩ ∈ connections (tr ++ [e])) :
    FirstLoad N (tr ++ [e])
      { s with server := s.server.turn v (some e), pending := s.pending.eraseIdx k } := by
  have hin : (s.server.turn v (some e)).InLoops :=
    (turn_inLoops_iff h.loops v e).mpr ⟨0, g, hok, fun _ => rfl⟩
  have hglobals : (s.server.turn v (some e)).globals = g := by
    obtain ⟨ret, hok'⟩ := onEvent_of_inLoops h.loops hin
    rw [hok] at hok'
    cases hok'
    rfl
  constructor
  · exact h.load
  · exact h.up
  · exact h.requested
  · exact hin
  · exact h.server.step (v, some e)
  · rw [hglobals]
    exact hentries
  · refine h.records.turn h.loops hin fun id hid => hfresh id ?_
    simp [requests, hid]
  · cases hasked with
    | idle hreq htr hpending => exact .idle hreq htr hpending
    | sent hreq htr hpending => exact .sent hreq htr hpending
    | accepted hreq htr hpending => exact .accepted hreq htr hpending
  · intro id hid
    obtain ⟨more, hmore, haccept⟩ := hcalls
    rw [State.accepts, hglobals, hmore, List.any_append, Bool.or_eq_true]
    rw [requests_append] at hid
    rcases List.mem_append.mp hid with hid | hid
    · exact .inl (h.answered id hid)
    · obtain ⟨param, hmem⟩ := haccept id hid
      exact .inr (List.any_eq_true.mpr ⟨_, hmem, by simp⟩)
  · exact ((serve_perm he).filterMap _).symm.trans h.seen
  · intro e' he'
    exact h.kinds e' (List.mem_of_mem_eraseIdx he')
  · rw [hglobals]
    exact hconnected

theorem serve_request (h : FirstLoad N tr s) {id : Link} {param : ConnParam}
    (he : s.pending[k]? = some (.connectRequest id param))
    (hok : onEvent v (.connectRequest id param) s.server.globals = .ok 0 g) :
    FirstLoad N (tr ++ [.connectRequest id param]) { s with
      server := s.server.turn v (some (.connectRequest id param))
      pending := s.pending.eraseIdx k } := by
  obtain ⟨rfl, hrequested, htr, hrest⟩ := h.asked_of_request he
  obtain ⟨-, q, hq, -, rfl⟩ := onConnectRequest_ok hok
  refine h.served he hok ?_ (.accepted hrequested ?_ hrest) ?_ ?_ fun q' hq' => ?_
  · intro id hid hmem
    cases List.mem_singleton.mp hid
    rw [htr, mem_firstLinks] at hmem
    obtain ⟨q', hlt, heq⟩ := hmem
    cases heq
    exact absurd hlt (Nat.lt_irrefl _)
  · rw [requests_append, htr, firstLinks_succ]
    rfl
  · show s.server.globals.queueCtr + 1 ≤ numQueues
    rw [← hq]
    exact q.isLt
  · refine ⟨(if s.server.globals.device = none then [.regMr v.region] else []) ++
      [.createQp ⟨0, s.up⟩, .accept ⟨0, s.up⟩ param], by simp [Globals.accepted], fun id hid => ⟨param, ?_⟩⟩
    cases List.mem_singleton.mp hid
    simp
  · have hstate : (s.server.globals.queues q').state = .connected := by
      by_cases hq : q' = q
      · subst hq
        simpa [Globals.accepted] using hq'
      · simpa [Globals.accepted, hq] using hq'
    rw [connections_append]
    exact List.mem_append_left _ (h.connected q' hstate)

theorem serve_established (h : FirstLoad N tr s) {id : Link}
    (he : s.pending[k]? = some (.established id))
    (hok : onEvent v (.established id) s.server.globals = .ok 0 g) :
    FirstLoad N (tr ++ [.established id]) { s with
      server := s.server.turn v (some (.established id))
      pending := s.pending.eraseIdx k } := by
  have hok' := hok
  simp only [onEvent, bind_eq_ok, get_apply, EStateM.Result.ok.injEq, deref_eq_ok] at hok'
  obtain ⟨_, _, ⟨rfl, rfl⟩, q, _, ⟨hctx, rfl⟩, hconn⟩ := hok'
  obtain ⟨-, -, sent, -, -, rfl⟩ := onConnection_ok hconn
  obtain ⟨k', -, rfl, hget, -⟩ := h.asked_of_established he
  have hq : (requests tr)[q.val]? = some ⟨0, k'⟩ := (h.records.assigned.context _ q).mp hctx
  have hperm : (requests (s.pending.eraseIdx k)).Perm (requests s.pending) :=
    ((@serve_perm [] s k _ he).filterMap CmEvent.request?).symm
  refine h.served he hok (by simp) ?_ h.entries ⟨sent, rfl, by simp⟩ fun q' hq' => ?_
  · have htr : requests (tr ++ [.established ⟨0, k'⟩]) = requests tr := by
      rw [requests_append, requests_established, List.append_nil]
    cases h.asked with
    | idle hreq hids hpending =>
      exact .idle hreq (htr.trans hids) (List.perm_nil.mp (hpending ▸ hperm))
    | sent hreq hids hpending =>
      exact .sent hreq (htr.trans hids) (List.perm_singleton.mp (hpending ▸ hperm))
    | accepted hreq hids hpending =>
      exact .accepted hreq (htr.trans hids) (List.perm_nil.mp (hpending ▸ hperm))
  · rw [connections_append]
    by_cases heq : q' = q
    · subst heq
      obtain ⟨m, hids⟩ := h.asked.links
      rw [hids] at hq
      cases getElem?_firstLinks hq
      exact List.mem_append_right _ (List.mem_singleton_self _)
    · simp only [Globals.setQueue_queues, Function.update_of_ne heq] at hq'
      exact List.mem_append_left _ (h.connected q' hq')

end Serve

/-- A request that finds no entry is the end of the server, and the load stands still. -/
theorem serve_beyond (h : FirstLoad N tr s) {v : Verbs} {k : ℕ} {id : Link} {param : ConnParam}
    (he : s.pending[k]? = some (.connectRequest id param))
    (hfull : ¬ s.server.globals.queueCtr < numQueues) {pending : List (CmEvent Link)} :
    Stuck N { s with
      server := s.server.turn v (some (.connectRequest id param)), pending := pending } := by
  obtain ⟨rfl, hrequested, htr, -⟩ := h.asked_of_request he
  have herr : onEvent v (.connectRequest ⟨0, s.up⟩ param) s.server.globals =
      .error (.queues s.server.globals.queueCtr)
        { s.server.globals with queueCtr := s.server.globals.queueCtr + 1 } :=
    onConnectRequest_beyond hfull
  have hturn : s.server.turn v (some (.connectRequest ⟨0, s.up⟩ param)) =
      ⟨.died (.queues s.server.globals.queueCtr),
        { s.server.globals with queueCtr := s.server.globals.queueCtr + 1 }⟩ := by
    have hloops := h.loops
    obtain ⟨⟨phase, g⟩, _⟩ := s
    cases phase with
    | connecting | serving => simp only [Process.turn, herr]
    | exited | died => exact absurd hloops id
  refine ⟨h.load, ?_, hrequested, h.requested hrequested, ?_⟩
  · rw [hturn]
    exact id
  · rw [Bool.eq_false_iff]
    intro haccepts
    rw [State.accepts, hturn] at haccepts
    obtain ⟨htr', -⟩ := h.asked_of_accepts hrequested haccepts
    rw [htr] at htr'
    exact absurd (congrArg List.length htr') (by simp [firstLinks])

/-- One step of the load. -/
theorem step (h : FirstLoad N tr s) {numcpus : ℕ → ℕ}
    (hcpus : numqueuesPerserver (numcpus 0) = N) {a : Action} (ha : a.Orderly)
    {ev : List (CmEvent Link)} {s' : State} (hact : act numcpus s a = some (ev, s')) :
    FirstLoad N (tr ++ ev) s' ∨ numQueues < N ∧ Stuck N s' := by
  cases act_moves hact with
  | connect hup hrequested =>
    rw [List.append_nil]
    rw [h.load, hcpus] at hup
    exact .inl (h.connect hup hrequested)
  | established hrequested haccepts =>
    rw [List.append_nil]
    exact .inl (h.establish hrequested haccepts)
  | serve v _ he =>
    rcases h.kinds _ (List.mem_of_getElem? he) with ⟨id, param, rfl⟩ | ⟨id, rfl⟩
    · by_cases hlt : s.server.globals.queueCtr < numQueues
      · obtain ⟨ret, g, hok⟩ := accepts_request ha h.server.table hlt id param
        obtain ⟨rfl, -⟩ := onConnectRequest_ok hok
        exact .inl (h.serve_request he hok)
      · obtain ⟨-, hrequested, htr, -⟩ := h.asked_of_request he
        have hup := h.requested hrequested
        rw [h.queueCtr_eq htr] at hlt
        exact .inr ⟨by omega, h.serve_beyond he (by rwa [h.queueCtr_eq htr])⟩
    · obtain ⟨g, hok⟩ := h.handles_established ha he
      exact .inl (h.serve_established he hok)
  | stop | other | noEvent => exact absurd ha id

/-- The steps that are left until all queues are connected on both sides. -/
def rest (N : ℕ) (s : State) : ℕ := 4 * (N - s.up) + s.pending.length - 2 * s.requested.toNat

/-- As long as something is left there is a step to take. -/
theorem progress (h : FirstLoad N tr s) {numcpus : ℕ → ℕ}
    (hcpus : numqueuesPerserver (numcpus 0) = N) (hrest : s.up < N ∨ s.pending ≠ []) :
    ∃ a ev s', a.Orderly ∧ act numcpus s a = some (ev, s') ∧ rest N s' < rest N s ∧
      (a = .connect ∨ a = .established → s.up < N) := by
  cases hpending : s.pending with
  | cons e pending =>
    refine ⟨.serve answers 0, [e], { s with
      server := s.server.turn answers (some e), pending := s.pending.eraseIdx 0 },
      fun _ => rfl, ?_, ?_, by simp⟩
    · rw [act, if_pos h.loops, hpending]
      rfl
    · have hlen : (s.pending.eraseIdx 0).length + 1 = s.pending.length := by rw [hpending]; rfl
      show 4 * (N - s.up) + (s.pending.eraseIdx 0).length - 2 * s.requested.toNat < rest N s
      rw [rest]
      cases hrequested : s.requested with
      | false => simp only [Bool.toNat_false]; omega
      | true =>
        have hup := h.requested hrequested
        simp only [Bool.toNat_true]
        omega
  | nil =>
    have hup : s.up < N := hrest.resolve_right (not_not.mpr hpending)
    cases h.asked with
    | idle hrequested =>
      have hmore : s.up < numqueuesPerserver (numcpus s.load) := by rwa [h.load, hcpus]
      refine ⟨.connect, [], _, trivial, if_pos ⟨hmore, hrequested⟩, ?_, fun _ => hup⟩
      simp only [rest, hrequested, Bool.toNat_true, Bool.toNat_false, hpending, List.nil_append,
        List.length_singleton, List.length_nil]
      omega
    | sent _ _ hreq =>
      rw [hpending] at hreq
      cases hreq
    | accepted hrequested htr =>
      have haccepts : s.accepts (s.link s.up) = true := by
        apply h.answered
        rw [htr, State.link, h.load, mem_firstLinks]
        exact ⟨s.up, Nat.lt_succ_self _, rfl⟩
      refine ⟨.established, [], _, trivial, if_pos ⟨hrequested, haccepts⟩, ?_, fun _ => hup⟩
      simp only [rest, hrequested, Bool.toNat_true, Bool.toNat_false, hpending, List.nil_append,
        List.length_singleton, List.length_nil]
      omega

/-- With everything handled, the memory region is on its way to the client. -/
theorem posted (h : FirstLoad N tr s) (hN : 0 < N) (hup : s.up = N) (hpending : s.pending = []) :
    ∃ mr, Call.postSend (s.link 0) mr ∈ s.server.globals.calls := by
  have hlink : s.link 0 = ⟨0, 0⟩ := by rw [State.link, h.load]
  have hmem : (⟨0, 0⟩ : Link) ∈ connections tr := by
    have hseen := h.seen
    rw [hpending, List.append_nil] at hseen
    exact hseen.mem_iff.mpr (mem_firstLinks.mpr ⟨0, hup ▸ hN, rfl⟩)
  obtain ⟨e, he, hid⟩ := List.mem_filterMap.mp hmem
  have hest : CmEvent.established ⟨0, 0⟩ ∈ tr := by
    cases e with
    | established id =>
      cases hid
      exact he
    | _ => cases hid
  obtain ⟨k, hids⟩ := h.asked.links
  have hreq := h.records.established _ hest
  rw [hids, mem_firstLinks] at hreq
  obtain ⟨q, hlt, -⟩ := hreq
  rw [hlink]
  refine (h.records.posted _).mpr ⟨?_, hest⟩
  rw [hids, firstLinks]
  simp [Nat.zero_lt_of_lt hlt]

/-- There is no memory region for a client that connects no queue. -/
theorem pos_of_posted (h : FirstLoad N tr s) {mr : MemRegion}
    (hsent : .postSend (s.link 0) mr ∈ s.server.globals.calls) : 0 < N := by
  obtain ⟨-, hest⟩ := (h.records.posted _).mp ⟨mr, hsent⟩
  have hmem : s.link 0 ∈ connections (tr ++ s.pending) := by
    rw [connections_append]
    exact List.mem_append_left _ (List.mem_filterMap.mpr ⟨_, hest, rfl⟩)
  obtain ⟨q, hlt, -⟩ := mem_firstLinks.mp (h.seen.mem_iff.mp hmem)
  exact Nat.lt_of_lt_of_le (Nat.zero_lt_of_lt hlt) h.up

end FirstLoad

end Multiswap.Pairing
