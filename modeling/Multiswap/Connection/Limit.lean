import Mathlib.Algebra.BigOperators.Group.Finset.Sigma
import Multiswap.Connection.Refinement
import Multiswap.Server.Accepts

/-!
# How many queues a server ever connects

A queue is connected once the server has accepted its connection, and the server takes one
entry of its table for each connection that it accepts and never gets one back. So over
all module loads no more queues are connected than the table has entries.
-/

namespace Multiswap.Connection

open Pairing (Link numqueuesPerserver)
open Server (AcceptedFit Accepting)
open Transition.System

/-- The queue whose handshake returned 0. -/
def Event.connected? : Event → Option Link
  | .initQueue l ret _ => if ret = 0 then some l else none
  | _ => none

/-- The queues whose handshakes returned 0 in a run. -/
def connected (tr : List Event) : List Link := tr.filterMap Event.connected?

theorem connected_append (tr ev : List Event) :
    connected (tr ++ ev) = connected tr ++ connected ev :=
  List.filterMap_append ..

theorem connected_free (s : State) (l : List ℕ) : connected (l.map s.free) = [] := by
  simp [connected, List.filterMap_map, State.free, Event.connected?]

theorem connected_served (es : List (Server.CmEvent Link)) : connected (es.map .served) = [] := by
  simp [connected, List.filterMap_map, Event.connected?]

variable {numcpus : ℕ → ℕ} {tr ev : List Event} {s s' : State}

/-! ## The server -/

theorem accepts_iff (t : Pairing.State) (l : Link) :
    t.accepts l = true ↔ l ∈ t.server.globals.acceptedIds := by
  simp only [Pairing.State.accepts, Server.Globals.acceptedIds, List.any_eq_true,
    List.mem_filterMap]
  refine exists_congr fun c => and_congr_right fun _ => ?_
  cases c <;> simp [Server.Call.accepted?]

/-- The server takes an entry for each connection that it accepts. -/
theorem act_accepting {t t' : Pairing.State} {a : Pairing.Action} {es : List (Server.CmEvent Link)}
    (ha : Pairing.act numcpus t a = some (es, t')) :
    ∃ e, Accepting e t.server.globals t'.server.globals ∧
      t.server.globals.queueCtr ≤ t'.server.globals.queueCtr := by
  cases Pairing.act_moves ha with
  | connect | established | stop => exact ⟨.other ⟨0, 0⟩, .same rfl, Nat.le_refl _⟩
  | @serve v _ e => exact ⟨e, Server.turn_accepting _ v e, (Server.turn_handled _ v e).queueCtr⟩
  | other v l =>
    exact ⟨.other l, Server.turn_accepting _ v _, (Server.turn_handled _ v (.other l)).queueCtr⟩
  | noEvent v =>
    refine ⟨.other ⟨0, 0⟩, Server.turn_none_accepting _ v _, ?_⟩
    exact (Server.turn_none_handled _ v (.other ⟨0, 0⟩)).queueCtr

theorem run_acceptedFit {tr : List (Server.CmEvent Link)} {t : Pairing.State}
    (h : (Pairing.system numcpus).Run tr t) : AcceptedFit t.server.globals := by
  induction h with
  | start hs =>
    obtain rfl : _ = Pairing.State.initial := hs
    exact Server.acceptedFit_initial
  | step _ hs ih =>
    obtain ⟨a, ha⟩ := hs
    obtain ⟨e, haccepting, hctr⟩ := act_accepting ha
    exact ih.accepting haccepting hctr

/-- A connection that was accepted stays so. -/
theorem accepts_act {t t' : Pairing.State} {a : Pairing.Action} {es : List (Server.CmEvent Link)}
    (ha : Pairing.act numcpus t a = some (es, t')) {l : Link} (hl : t.accepts l = true) :
    t'.accepts l = true := by
  rw [accepts_iff] at hl ⊢
  obtain ⟨e, haccepting, -⟩ := act_accepting ha
  cases haccepting with
  | same heq => rwa [heq]
  | one _ heq =>
    rw [heq]
    exact List.mem_append_left _ hl

/-! ## The client -/

/-- Behind each queue that is connected there is a connection that the server has accepted,
one of its own. -/
structure Backed (tr : List Event) (s : State) : Prop where
  current : s.cm = .established → s.pairing.accepts (s.link s.up) = true
  accepted : ∀ l ∈ connected tr, s.pairing.accepts l = true
  before : ∀ l ∈ connected tr, l.load < s.load ∨ l.load = s.load ∧ l.queue < s.up
  nodup : (connected tr).Nodup

theorem backed_initial : Backed [] State.initial where
  current h := by cases h
  accepted _ h := by cases h
  before _ h := by cases h
  nodup := .nil

/-- A step in which no handshake returns 0. -/
theorem Backed.frame (h : Backed tr s) (hev : connected ev = [])
    (haccepts : ∀ l, s.pairing.accepts l = true → s'.pairing.accepts l = true)
    (hcurrent : s'.cm = .established → s'.pairing.accepts (s'.link s'.up) = true)
    (hload : s.load < s'.load ∨ s.load = s'.load ∧ s.up = s'.up) : Backed (tr ++ ev) s' := by
  have hsame : connected (tr ++ ev) = connected tr := by rw [connected_append, hev, List.append_nil]
  refine ⟨hcurrent, ?_, ?_, ?_⟩
  all_goals rw [hsame]
  · exact fun l hl => haccepts l (h.accepted l hl)
  · intro l hl
    have hbefore := h.before l hl
    omega
  · exact h.nodup

/-- The next queue is connected. -/
theorem Backed.next (h : Backed tr s) (hcm : s.cm = .established) {q : Handshake.Queue} :
    Backed (tr ++ [.initQueue (s.link s.up) 0 q])
      { s with
        up := s.up + 1
        hs := .initial s.hs.queue.rdev
        cm := .idle
        queues := Function.update s.queues s.up s.hs.queue } := by
  have hmore : connected (tr ++ [.initQueue (s.link s.up) 0 q]) = connected tr ++ [s.link s.up] :=
    connected_append ..
  have hnew : s.link s.up ∉ connected tr := by
    intro hmem
    have hbefore := h.before _ hmem
    simp [State.link] at hbefore
  refine ⟨(fun hno => by cases hno), ?_, ?_, ?_⟩
  all_goals rw [hmore]
  · intro l hl
    rcases List.mem_append.mp hl with hl | hl
    · exact h.accepted l hl
    · rw [List.mem_singleton.mp hl]
      exact h.current hcm
  · intro l hl
    show l.load < s.load ∨ l.load = s.load ∧ l.queue < s.up + 1
    rcases List.mem_append.mp hl with hl | hl
    · have hbefore := h.before l hl
      omega
    · rw [List.mem_singleton.mp hl]
      exact .inr ⟨rfl, Nat.lt_succ_self _⟩
  · exact h.nodup.append (List.nodup_singleton _) (List.disjoint_singleton.mpr hnew)

/-- The load ends. -/
theorem Backed.ended (h : Backed tr s) (hev : connected ev = []) : Backed (tr ++ ev) s.ended :=
  h.frame hev (fun _ => id) (fun hno => by cases hno) (.inl (Nat.lt_succ_self _))

theorem Backed.step (h : Backed tr s) (hi : Inv numcpus s) (hs : Moves numcpus s ev s') :
    Backed (tr ++ ev) s' := by
  cases hs with
  | begin createId resolveAddr =>
    refine h.frame rfl (fun _ => id) (fun hno => ?_) (.inr ⟨rfl, rfl⟩)
    dsimp only at hno
    split at hno <;> cases hno
  | event k e _ hraises =>
    refine h.frame rfl (fun _ => id) (fun hcm => ?_) (.inr ⟨rfl, rfl⟩)
    show s.pairing.accepts (s.link s.up) = true
    have hafter : s.cm.after k s.hs.queue e = .established := hcm
    have hgoes : Goes (s.pairing.accepts (s.link s.up)) s.cm .established := by
      rw [← hafter]
      exact goes_after _ hraises
    generalize hcm₀ : s.cm = cm at hgoes
    cases hgoes with
    | quiet _ hquiet => exact absurd hquiet id
    | same => exact h.current hcm₀
    | establishes haccepts => exact haccepts
  | wake | destroy => exact h.frame rfl (fun _ => id) h.current (.inr ⟨rfl, rfl⟩)
  | next hret => exact h.next (hi.stands.of_returned hret).1
  | @unwind ret _ hret =>
    refine h.ended ?_
    have hfails : Event.connected? (.initQueue (s.link s.up) ret s.hs.queue) = none := if_neg hret
    rw [connected, List.filterMap_cons_none hfails]
    exact connected_free s _
  | stopandfree => exact h.ended (connected_free s _)
  | @server _ es _ hact =>
    exact h.frame (connected_served es) (fun _ => accepts_act hact)
      (fun hcm => accepts_act hact (h.current hcm)) (.inr ⟨rfl, rfl⟩)

theorem run_backed (h : (system numcpus).Run tr s) : Backed tr s := by
  induction h with
  | start hs =>
    obtain rfl : _ = State.initial := hs
    exact backed_initial
  | step hrun hs ih =>
    exact ih.step (run_inv hrun).1 (moves hs)

theorem card_connected_le (h : (system numcpus).Run tr s) :
    (connected tr).length ≤ Server.numQueues := by
  have hbacked := run_backed h
  have haccepted : connected tr ⊆ s.server.globals.acceptedIds := fun l hl =>
    (accepts_iff s.pairing l).mp (hbacked.accepted l hl)
  calc (connected tr).length
      ≤ s.server.globals.acceptedIds.length :=
        (List.subperm_of_subset hbacked.nodup haccepted).length_le
    _ ≤ Server.numQueues := (run_acceptedFit (run_pairing h)).fit

/-- Against one server process no more than `NUM_QUEUES` handshakes ever return 0, in
whatever loads. So all loads with all their queues connected fit into its table together. -/
theorem loads_fit (h : (system numcpus).Run tr s) :
    (connected tr).length ≤ Server.numQueues ∧
      ∀ L : Finset ℕ, (∀ l ∈ L, ∀ q < numqueuesPerserver (numcpus l), ⟨l, q⟩ ∈ connected tr) →
        ∑ l ∈ L, numqueuesPerserver (numcpus l) ≤ Server.numQueues := by
  refine ⟨card_connected_le h, fun L hL => ?_⟩
  -- Their queues, a load and a number each.
  let queues : Finset (Σ _ : ℕ, ℕ) := L.sigma fun l => Finset.range (numqueuesPerserver (numcpus l))
  have hmaps : ∀ p ∈ queues, (⟨p.1, p.2⟩ : Link) ∈ (connected tr).toFinset := by
    rintro ⟨l, q⟩ hp
    obtain ⟨hl, hq⟩ := Finset.mem_sigma.mp hp
    exact List.mem_toFinset.mpr (hL l hl q (Finset.mem_range.mp hq))
  have hinj : Set.InjOn (fun p : Σ _ : ℕ, ℕ => (⟨p.1, p.2⟩ : Link)) queues := by
    rintro ⟨l, q⟩ - ⟨l', q'⟩ - heq
    cases heq
    rfl
  calc ∑ l ∈ L, numqueuesPerserver (numcpus l)
      = queues.card := by simp [queues, Finset.card_sigma]
    _ ≤ (connected tr).toFinset.card := Finset.card_le_card_of_injOn _ hmaps hinj
    _ ≤ (connected tr).length := List.toFinset_card_le _
    _ ≤ Server.numQueues := card_connected_le h

/-- A load of one processor. -/
theorem loads_fit_one : ∃ tr s, (system fun _ => 1).Run tr s ∧
    ∑ _l ∈ ({0} : Finset ℕ), numqueuesPerserver 1 ≤ Server.numQueues := by
  obtain ⟨tr, s, hrun, hconnected⟩ := exists_run (fun _ => 1)
    (connectQueue ++ connectQueue ++ connectQueue)
    (fun tr _ => connected tr = (List.range 3).map (Link.mk 0)) rfl
  refine ⟨tr, s, hrun, (loads_fit hrun).2 {0} fun l hl q hq => ?_⟩
  rw [Finset.mem_singleton.mp hl, hconnected]
  exact List.mem_map.mpr ⟨q, List.mem_range.mpr hq, rfl⟩

end Multiswap.Connection
