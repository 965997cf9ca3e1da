import Mathlib.Data.List.Nodup
import Multiswap.Server.Handlers

/-!
# What the server remembers of the events it handled

As long as no handler ends the process, its memory is a function of the events
handled so far: entry `k` of the table belongs to the connection of request `k`,
and the message with the memory region has been posted on the connection of the
first request, once that connection was established.
-/

namespace Multiswap.Server

open StateError

variable {κ : Type}

/-- The connection that an event asks for. -/
def CmEvent.request? : CmEvent κ → Option κ
  | .connectRequest id _ => some id
  | _ => none

/-- The connections of the connect requests among some events, in their order. -/
def requests (tr : List (CmEvent κ)) : List κ := tr.filterMap CmEvent.request?

@[simp] theorem requests_nil : requests ([] : List (CmEvent κ)) = [] := rfl

theorem requests_append (tr ev : List (CmEvent κ)) :
    requests (tr ++ ev) = requests tr ++ requests ev :=
  List.filterMap_append ..

@[simp] theorem requests_connectRequest (id : κ) (param : ConnParam) :
    requests [CmEvent.connectRequest id param] = [id] := rfl

@[simp] theorem requests_established (id : κ) : requests [CmEvent.established id] = [] := rfl

@[simp] theorem requests_other (id : κ) : requests [CmEvent.other id] = [] := rfl

/-- A request among events that ask for no connection twice asks for a new one. -/
theorem fresh_of_nodup {tr rest : List (CmEvent κ)} {e : CmEvent κ} {id : κ}
    (h : (requests (tr ++ [e] ++ rest)).Nodup) (he : e.request? = some id) : id ∉ requests tr := by
  have hid : requests [e] = [id] := by simp [requests, he]
  rw [requests_append, requests_append, hid, List.append_assoc] at h
  intro hmem
  exact List.disjoint_of_nodup_append h hmem (by simp)

/-- The entries of the table belong to the connections `ids`, in their order. -/
structure Assigned (ids : List κ) (g : Globals κ) : Prop where
  queueCtr : g.queueCtr = ids.length
  context : ∀ id q, g.context id = some q ↔ ids[q.val]? = some id
  cmId : ∀ q, (g.queues q).cmId = ids[q.val]?
  qp : ∀ q, (g.queues q).qp = ids[q.val]?

/-- The memory `g` of a process that has handled the events `tr`. -/
structure Records (tr : List (CmEvent κ)) (g : Globals κ) : Prop where
  assigned : Assigned (requests tr) g
  established : ∀ id, CmEvent.established id ∈ tr → id ∈ requests tr
  accepted : ∀ id param, Call.accept id param ∈ g.calls → id ∈ requests tr
  posted : ∀ id, g.Posted id ↔ (requests tr)[0]? = some id ∧ CmEvent.established id ∈ tr
  region : ∀ id r, Call.postSend id r ∈ g.calls → g.device = some r

theorem records_initial : Records [] (Globals.initial κ) where
  assigned := ⟨rfl, by simp [Globals.initial], fun _ => rfl, fun _ => rfl⟩
  established _ h := by cases h
  accepted _ _ h := by cases h
  posted _ := by simp [Globals.Posted, Globals.initial]
  region _ _ h := by cases h

variable {v : Verbs} {tr : List (CmEvent κ)} {ids : List κ} {g g' : Globals κ}

/-- A handler that changes states and records calls leaves the assignment alone. -/
theorem Assigned.setState (h : Assigned ids g) (q : Fin numQueues) (st : QueueState)
    (calls : List (Call κ)) :
    Assigned ids { g.setQueue q { g.queues q with state := st } with calls := calls } where
  queueCtr := h.queueCtr
  context := h.context
  cmId k := (setState_cmId q k st).trans (h.cmId k)
  qp k := (setState_qp q k st).trans (h.qp k)

/-- An event that is neither a request nor an established connection. -/
theorem Records.keep (h : Records tr g) {e : CmEvent κ} (hreq : requests [e] = [])
    (hest : ∀ id, CmEvent.established id ≠ e) (hassigned : Assigned (requests tr) g')
    (hdev : g'.device = g.device)
    (hacc : ∀ id param, Call.accept id param ∈ g'.calls ↔ Call.accept id param ∈ g.calls)
    (hpost : ∀ id r, Call.postSend id r ∈ g'.calls ↔ Call.postSend id r ∈ g.calls) :
    Records (tr ++ [e]) g' := by
  have htr : requests (tr ++ [e]) = requests tr := by rw [requests_append, hreq, List.append_nil]
  have hmem : ∀ id, CmEvent.established id ∈ tr ++ [e] ↔ CmEvent.established id ∈ tr := by
    intro id
    simp [hest id]
  constructor
  · rw [htr]
    exact hassigned
  · intro id hid
    rw [htr]
    exact h.established id ((hmem id).mp hid)
  · intro id param hid
    rw [htr]
    exact h.accepted id param ((hacc id param).mp hid)
  · intro id
    rw [htr, hmem, ← h.posted id]
    simp only [Globals.Posted, hpost]
  · intro id r hid
    rw [hdev]
    exact h.region id r ((hpost id r).mp hid)

theorem Records.disconnected (h : Records tr g) {id : κ} {q : Fin numQueues} {ret : ℤ}
    (hok : onDisconnect q g = .ok ret g') : Records (tr ++ [.disconnected id]) g' := by
  obtain ⟨-, ⟨-, rfl⟩ | ⟨id', -, -, rfl⟩⟩ := onDisconnect_ok hok
  · exact h.keep rfl (by simp) h.assigned rfl (by simp) (by simp)
  · exact h.keep rfl (by simp) (h.assigned.setState q .init _) rfl (by simp) (by simp)

theorem Records.connected (h : Records tr g) {id : κ} {q : Fin numQueues} {ret : ℤ}
    (hctx : g.context id = some q) (hok : onConnection v q g = .ok ret g') :
    Records (tr ++ [.established id]) g' := by
  obtain ⟨-, -, sent, hzero, hpos, rfl⟩ := onConnection_ok hok
  have htr : requests (tr ++ [.established id]) = requests tr := by simp [requests_append]
  have hid : (requests tr)[q.val]? = some id := (h.assigned.context id q).mp hctx
  -- Only the entry with index 0 sends, and it sends on the connection of the event.
  have hsent : ∀ c r, Call.postSend c r ∈ sent → (requests tr)[0]? = some c ∧ c = id ∧
      g.device = some r := by
    intro c r hc
    by_cases hq : q.val = 0
    · obtain ⟨c', r', hqp, hdev, rfl⟩ := hzero hq
      rw [h.assigned.qp q, hid] at hqp
      cases hqp
      simp only [List.mem_singleton, Call.postSend.injEq] at hc
      obtain ⟨rfl, rfl⟩ := hc
      exact ⟨hq ▸ hid, rfl, hdev⟩
    · rw [hpos hq] at hc
      cases hc
  have hnoaccept : ∀ c param, Call.accept c param ∉ sent := by
    intro c param hc
    by_cases hq : q.val = 0
    · obtain ⟨_, _, -, -, rfl⟩ := hzero hq
      simp at hc
    · rw [hpos hq] at hc
      cases hc
  constructor
  · rw [htr]
    exact h.assigned.setState q .connected _
  · intro c hc
    rw [htr]
    rcases List.mem_append.mp hc with hc | hc
    · exact h.established c hc
    · cases List.mem_singleton.mp hc
      exact List.mem_of_getElem? hid
  · intro c param hc
    rw [htr]
    rcases List.mem_append.mp hc with hc | hc
    · exact h.accepted c param hc
    · exact absurd hc (hnoaccept c param)
  · intro c
    rw [htr]
    constructor
    · rintro ⟨r, hr⟩
      rcases List.mem_append.mp hr with hr | hr
      · obtain ⟨hhead, hest⟩ := (h.posted c).mp ⟨r, hr⟩
        exact ⟨hhead, List.mem_append_left _ hest⟩
      · obtain ⟨hhead, rfl, -⟩ := hsent c r hr
        exact ⟨hhead, by simp⟩
    · rintro ⟨hhead, hest⟩
      rcases List.mem_append.mp hest with hest | hest
      · obtain ⟨r, hr⟩ := (h.posted c).mpr ⟨hhead, hest⟩
        exact ⟨r, List.mem_append_left _ hr⟩
      · have heq : c = id := by simpa using hest
        subst heq
        have hq : g.context c = some ⟨0, by decide⟩ := (h.assigned.context c _).mpr hhead
        obtain ⟨c', r, hqp, -, rfl⟩ := hzero (by rw [hctx] at hq; cases hq; rfl)
        rw [h.assigned.qp q, hid] at hqp
        cases hqp
        exact ⟨r, by simp⟩
  · intro c r hr
    rcases List.mem_append.mp hr with hr | hr
    · exact h.region c r hr
    · exact (hsent c r hr).2.2

variable [DecidableEq κ]

/-- The next request gets the next entry. -/
theorem Assigned.next (h : Assigned ids g) {id : κ} (hfresh : id ∉ ids) {q : Fin numQueues}
    (hq : q.val = g.queueCtr) (param : ConnParam) :
    Assigned (ids ++ [id]) (g.accepted v id param q) := by
  have hlen : q.val = ids.length := hq.trans h.queueCtr
  -- What entry `k` records, before and after.
  have hget : ∀ k : Fin numQueues, k ≠ q → (ids ++ [id])[k.val]? = ids[k.val]? := by
    intro k hk
    have hne : k.val ≠ ids.length := fun heq => hk (Fin.ext (heq.trans hlen.symm))
    rcases Nat.lt_or_gt_of_ne hne with hlt | hgt
    · rw [List.getElem?_append_left hlt]
    · rw [List.getElem?_eq_none (by simp; omega), List.getElem?_eq_none (by omega)]
  have hgetq : (ids ++ [id])[q.val]? = some id := by rw [hlen]; simp
  constructor
  · simp [Globals.accepted, h.queueCtr]
  · intro c k
    simp only [Globals.accepted]
    by_cases hk : k = q
    · subst hk
      rw [hgetq]
      by_cases hc : c = id
      · subst hc; simp
      · rw [Function.update_of_ne hc, h.context c k, List.getElem?_eq_none (by omega)]
        simp [Ne.symm hc]
    · rw [hget k hk, ← h.context c k]
      by_cases hc : c = id
      · subst hc
        rw [Function.update_self]
        have hnot : g.context c ≠ some k := fun hctx =>
          hfresh (List.mem_of_getElem? ((h.context c k).mp hctx))
        simp [hnot, Ne.symm hk]
      · rw [Function.update_of_ne hc]
  · intro k
    by_cases hk : k = q
    · subst hk; simp [Globals.accepted, hgetq]
    · simp [Globals.accepted, hk, hget k hk, h.cmId k]
  · intro k
    by_cases hk : k = q
    · subst hk; simp [Globals.accepted, hgetq]
    · simp [Globals.accepted, hk, hget k hk, h.qp k]

theorem Records.requested (h : Records tr g) {id : κ} {param : ConnParam} {ret : ℤ}
    (hfresh : id ∉ requests tr) (hok : onConnectRequest v id param g = .ok ret g') :
    Records (tr ++ [.connectRequest id param]) g' := by
  obtain ⟨-, q, hq, -, rfl⟩ := onConnectRequest_ok hok
  have htr : requests (tr ++ [.connectRequest id param]) = requests tr ++ [id] := by
    simp [requests_append]
  have hpost : ∀ c r, Call.postSend c r ∈ (g.accepted v id param q).calls ↔
      Call.postSend c r ∈ g.calls := by
    intro c r
    simp only [Globals.accepted, registered_calls, List.mem_append]
    split <;> simp
  constructor
  · rw [htr]
    exact h.assigned.next hfresh hq param
  · intro c hc
    rw [htr]
    exact List.mem_append_left _ (h.established c (by simpa using hc))
  · intro c p hc
    rw [htr]
    simp only [Globals.accepted, registered_calls, List.mem_append, List.mem_cons,
      List.mem_ite_nil_right, Call.accept.injEq, reduceCtorEq, List.not_mem_nil, or_false, and_false,
      false_or] at hc ⊢
    rcases hc with hc | ⟨rfl, -⟩
    · exact .inl (h.accepted c p hc)
    · exact .inr rfl
  · intro c
    rw [htr]
    have hmem : CmEvent.established c ∈ tr ++ [.connectRequest id param] ↔
        CmEvent.established c ∈ tr := by simp
    simp only [Globals.Posted, hpost]
    rw [hmem]
    refine (h.posted c).trans (and_congr_left fun hest => ?_)
    -- A connection was established before, so this is not the first request.
    have hpos : 0 < (requests tr).length := List.length_pos_of_mem (h.established c hest)
    rw [List.getElem?_append_left hpos]
  · intro c r hr
    rw [hpost] at hr
    simp [Globals.accepted, h.region c r hr]

/-- One event, handled. -/
theorem Records.handled (h : Records tr g) {e : CmEvent κ} {ret : ℤ}
    (hfresh : ∀ id, e.request? = some id → id ∉ requests tr) (hok : onEvent v e g = .ok ret g') :
    Records (tr ++ [e]) g' := by
  cases e with
  | connectRequest id param => exact h.requested (hfresh id rfl) hok
  | established id =>
    simp only [onEvent, bind_eq_ok, get_apply, EStateM.Result.ok.injEq, deref_eq_ok] at hok
    obtain ⟨_, _, ⟨rfl, rfl⟩, q, _, ⟨hctx, rfl⟩, hok⟩ := hok
    exact h.connected hctx hok
  | disconnected id =>
    simp only [onEvent, bind_eq_ok, get_apply, EStateM.Result.ok.injEq, deref_eq_ok, pure_apply] at hok
    obtain ⟨_, _, ⟨rfl, rfl⟩, q, _, ⟨-, rfl⟩, _, _, hok, -, rfl⟩ := hok
    exact h.disconnected hok
  | other id =>
    simp only [onEvent, pure_apply, EStateM.Result.ok.injEq] at hok
    obtain ⟨-, rfl⟩ := hok
    exact h.keep rfl (by simp) h.assigned rfl (by simp) (by simp)

/-- One turn of an event loop that goes on. -/
theorem Records.turn {p : Process κ} (h : Records tr p.globals) {e : CmEvent κ} (hp : p.InLoops)
    (hin : (p.turn v (some e)).InLoops) (hfresh : ∀ id, e.request? = some id → id ∉ requests tr) :
    Records (tr ++ [e]) (p.turn v (some e)).globals := by
  obtain ⟨ret, hok⟩ := onEvent_of_inLoops hp hin
  exact h.handled hfresh hok

end Multiswap.Server
