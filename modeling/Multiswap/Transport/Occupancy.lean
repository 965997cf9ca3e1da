import Multiswap.Transport.RoundTrip

/-!
# How full the servers are

As long as every `xa_store` succeeds, the free counts of a node account for every slot: a
slot is free, or one pageid holds it. A pageid that has been stored holds a slot for ever,
since neither later stores nor `sswap_invalidate_page` give it back, and no other pageid
does.
-/

namespace Multiswap.Transport

open Concurrent (Op lastStored)
open Rdma (Host)

section Counting

variable {cfg : Config} {held : ℕ → Option (ℕ × ℕ)} {s : Scheduler} {n t : ℕ}

/-- The pageids that hold a slot of the node. -/
def holders (held : ℕ → Option (ℕ × ℕ)) (n t : ℕ) : Finset ℕ :=
  (Finset.range n).filter fun p => (held p).map Prod.fst = some t

/-- The slots of the node that are in use. -/
def slotsInUse (cfg : Config) (s : Scheduler) (t : ℕ) : Finset ℕ :=
  (Finset.range (cfg.nrRemoteMaps t * remoteAddressSpacePages)).filter fun x => s.bit t x = true

/-- A slot in use has one holder. -/
theorem card_slotsInUse (h : RepInv cfg held s) (ht : t < maxRemoteNodes)
    (hn : ∀ p l, held p = some l → p < n) :
    (slotsInUse cfg s t).card = (holders held n t).card := by
  have hslot : ∀ x, cfg.HasSlot t x ↔ x < cfg.nrRemoteMaps t * remoteAddressSpacePages := by
    intro x
    have ht' : t < 2 := ht
    rw [hasSlot_iff, remoteAddressSpacePages_eq]
    omega
  have himage : (holders held n t).image (fun p => ((held p).map Prod.snd).getD 0) =
      slotsInUse cfg s t := by
    ext x
    simp only [holders, slotsInUse, Finset.mem_image, Finset.mem_filter, Finset.mem_range]
    constructor
    · rintro ⟨p, ⟨-, hp⟩, hx⟩
      cases hheld : held p with
      | none => simp [hheld] at hp
      | some l =>
        obtain ⟨t', x'⟩ := l
        simp only [hheld, Option.map_some, Option.some.injEq, Option.getD_some] at hp hx
        subst hp hx
        have hhas := h.hasSlot p _ _ hheld
        exact ⟨(hslot _).mp hhas, (h.owned _ _ hhas).mpr ⟨p, hheld⟩⟩
    · rintro ⟨hlt, hbit⟩
      obtain ⟨p, hp⟩ := (h.owned t x ((hslot x).mpr hlt)).mp hbit
      exact ⟨p, ⟨hn p _ hp, by simp [hp]⟩, by simp [hp]⟩
  rw [← himage]
  apply Finset.card_image_of_injOn
  intro p hp q hq heq
  simp only [holders, Finset.coe_filter, Set.mem_ofPred_eq] at hp hq
  cases hheld : held p with
  | none => simp [hheld] at hp
  | some l =>
    cases hheld' : held q with
    | none => simp [hheld'] at hq
    | some l' =>
      obtain ⟨t₁, x₁⟩ := l
      obtain ⟨t₂, x₂⟩ := l'
      simp only [hheld, hheld', Option.map_some, Option.some.injEq, Option.getD_some] at hp hq heq
      obtain ⟨-, rfl⟩ := hp
      obtain ⟨-, rfl⟩ := hq
      subst heq
      exact h.unique p q _ hheld hheld'

/-- Every slot of a node is free or held. -/
theorem free_add_held (h : RepInv cfg held s) (ht : t < maxRemoteNodes)
    (hn : ∀ p l, held p = some l → p < n) :
    ∑ g ∈ Finset.range (cfg.nrRemoteMaps t), (s.remoteMap t g).freePages + (holders held n t).card =
      cfg.nrRemoteMaps t * remoteAddressSpacePages := by
  have hfree : ∑ g ∈ Finset.range (cfg.nrRemoteMaps t), (s.remoteMap t g).freePages =
      ((Finset.range (cfg.nrRemoteMaps t * remoteAddressSpacePages)).filter
        fun x => s.bit t x = false).card := by
    rw [Finset.sum_congr rfl fun g hg => h.freePages t g ht (Finset.mem_range.mp hg)]
    exact BitSearch.sum_zeroCount _ (by decide) _
  have hsplit := Finset.card_filter_add_card_filter_not
    (s := Finset.range (cfg.nrRemoteMaps t * remoteAddressSpacePages)) fun x => s.bit t x = true
  rw [Finset.card_range] at hsplit
  simp only [Bool.not_eq_true] at hsplit
  rw [hfree, ← card_slotsInUse h ht hn, slotsInUse, Nat.add_comm]
  exact hsplit

end Counting

variable {α : Type} {n : ℕ} {cfg : Config} {host : Host} {memory : ℕ → ℕ → α}
  {tr ev : List (Event α n)} {s s' : State α n} {p : Fin n}

/-- A pageid has a mapping from its first completed store on, and no earlier than in a store. -/
structure Recorded (tr : List (Event α n)) (s : State α n) (p : Fin n) : Prop where
  mapped : (lastStored p (returns tr)).isSome → s.driver.sched.mappingOf p ≠ none
  stored : s.driver.sched.mappingOf p ≠ none →
    (lastStored p (returns tr)).isSome ∨ (s.driver.op p).storing = true

/-- A step that ends no store of the pageid, and records nothing for it. -/
theorem Recorded.frame (hr : Recorded tr s p)
    (hmap : s'.driver.sched.mappingOf p = s.driver.sched.mappingOf p)
    (hop : (s.driver.op p).storing = true → (s'.driver.op p).storing = true)
    (hret : lastStored p (returns (tr ++ ev)) = lastStored p (returns tr)) :
    Recorded (tr ++ ev) s' p := by
  refine ⟨fun hlast => ?_, fun hm => ?_⟩
  · rw [hmap]
    exact hr.mapped (hret ▸ hlast)
  · rw [hret]
    exact (hr.stored (hmap ▸ hm)).imp_right hop

/-- A step of a call does not drop its mapping. -/
theorem move_mapped {t t' : Concurrent.State α} {evt : List (Concurrent.Event α)} {p : ℕ}
    (hm : Concurrent.Move cfg t p evt t') (hp : Placed cfg n t')
    (h : t.sched.mappingOf p ≠ none) : t'.sched.mappingOf p ≠ none := by
  cases hm with
  | @record page second flags slot hop =>
    have hok := hp.inv.ops p
    dsimp only at hok
    rw [Function.update_self] at hok
    obtain ⟨slot', hslot, -⟩ := hok
    rw [hslot]
    exact Option.some_ne_none _
  | _ => exact h

/-- The call of the pageid takes a step before its transfer. -/
theorem Recorded.schedule (hr : Recorded tr s p) {d : Concurrent.State α}
    (hret : returns (tr ++ ev) = returns tr)
    (hmapped : s.driver.sched.mappingOf p ≠ none → d.sched.mappingOf p ≠ none)
    (hself : (d.op p).storing = false → (s.driver.op p).storing = false ∧
      d.sched.mappingOf p = s.driver.sched.mappingOf p) :
    Recorded (tr ++ ev) { s with driver := d } p := by
  refine ⟨fun hlast => hmapped (hr.mapped (hret ▸ hlast)), fun hm => ?_⟩
  cases hstoring : (d.op p).storing with
  | true => exact .inr rfl
  | false =>
    obtain ⟨hnot, hmap⟩ := hself hstoring
    refine .inl (hret ▸ (hr.stored (hmap ▸ hm)).resolve_right ?_)
    rw [hnot]
    exact Bool.false_ne_true

/-- The call of the pageid returns, and a store leaves its mapping. -/
theorem Recorded.leave (hr : Recorded tr s p) (hi : Inv tr s) (hp : Placed cfg n s.driver)
    {q : QueueId} {u : Queue.State (Fin n)} {d : Queue.Call} {ret : ℤ}
    (hs : Queue.Step (s.queues q) [.returned p d ret] u) :
    Recorded (tr ++ [.onQueue q (.returned p d ret), .returned (s.result p ret)])
      { (s.setOp p .idle).setQueue q u with via := Function.update s.via p none } p := by
  have hret : returns (tr ++ [.onQueue q (.returned p d ret), .returned (s.result p ret)]) =
      returns tr ++ [s.result p ret] := returns_append ..
  have hshows := shows_of_leave hi hs
  generalize s.result p ret = e at hshows hret
  cases hshows with
  | @stored page type roffset hw =>
    have hok := hp.inv.ops p
    rw [hw] at hok
    obtain ⟨slot, hslot, -⟩ := hok
    have hlast : lastStored (p : ℕ) (returns tr ++ [.stored p page 0]) = some page := by
      rw [Concurrent.lastStored_stored, if_pos rfl]
    refine ⟨fun _ => ?_, fun _ => .inl ?_⟩
    · show s.driver.sched.mappingOf p ≠ none
      rw [hslot]
      exact Option.some_ne_none _
    · rw [hret, hlast]
      rfl
  | loaded hl | failed hl =>
    refine hr.frame rfl (fun hstoring => ?_) ?_
    · rw [hl] at hstoring
      cases hstoring
    · rw [hret, Concurrent.lastStored_loaded]

theorem Recorded.step (hr : Recorded tr s p) (hf : Concurrent.Fits cfg n) (hi : Inv tr s)
    (hp : Placed cfg n s.driver) (hs : Step cfg host s ev s') : Recorded (tr ++ ev) s' p := by
  have hother : ∀ {op : Op α} {p₀ : Fin n}, (p : ℕ) ≠ p₀ → (s.driver.op p).storing = true →
      (Function.update s.driver.op p₀ op p).storing = true := fun hne hstoring =>
    (congrArg Op.storing (Function.update_of_ne hne ..)).trans hstoring
  cases hs with
  | callStore p₀ page hidle =>
    refine hr.frame rfl (fun hstoring => ?_) (by simp)
    by_cases hpp : p = p₀
    · subst hpp
      simp [State.setOp, Op.storing]
    · exact hother (Fin.val_ne_of_ne hpp) hstoring
  | callLoad p₀ page hidle =>
    refine hr.frame rfl (fun hstoring => ?_) (by simp)
    by_cases hpp : p = p₀
    · subst hpp
      rw [hidle] at hstoring
      cases hstoring
    · exact hother (Fin.val_ne_of_ne hpp) hstoring
  | schedule p₀ hne hnone hstep =>
    have hmove := hp.inv.advance_move hf hne hstep
    obtain ⟨rfl, -, hothers, hself⟩ := move_silent hp hf hmove hnone
    by_cases hpp : p = p₀
    · subst hpp
      have hp' := hp.step hf (.advance _ hne hstep)
      exact hr.schedule (by simp) (move_mapped hmove hp') hself
    · have hne' : (p : ℕ) ≠ p₀ := Fin.val_ne_of_ne hpp
      exact hr.frame (hothers p hne') (hother hne') (by simp)
  | start => exact hr.frame rfl id (by rw [List.append_nil])
  | post => exact hr.frame rfl id (by rw [returns_append]; exact congrArg _ (List.append_nil _))
  | internal q hin =>
    exact hr.frame rfl id (by rw [returns_append, returns_onQueue, List.append_nil])
  | @complete q before after r status hin =>
    obtain ⟨hop, hsched, -⟩ := moveData_eq s q r status
    refine hr.frame ?_ (fun hstoring => ?_) ?_
    · simp [State.setQueue, hsched]
    · simpa [State.setQueue, hop] using hstoring
    · rw [returns_append]
      exact congrArg _ (List.append_nil _)
  | leave q p₀ hs =>
    by_cases hpp : p = p₀
    · subst hpp
      exact hr.leave hi hp hs
    · have hne : (p : ℕ) ≠ p₀ := Fin.val_ne_of_ne hpp
      refine hr.frame rfl (hother hne) ?_
      rw [returns_append, lastStored_append _ _ fun e he => ?_]
      have hresult : e = s.result p₀ _ := List.mem_singleton.mp he
      rw [hresult, pageidOf_result]
      exact Ne.symm hne

theorem run_recorded (hf : Concurrent.Fits cfg n) (h : (system cfg host n memory).Run tr s)
    (p : Fin n) : Recorded tr s p := by
  refine h.invariant (I := fun tr s => Recorded tr s p) (fun s hs => ?_)
    fun tr s ev s' hrun hr hs => hr.step hf (run_inv hrun) (driver_placed hf hrun) hs
  obtain ⟨pages, rfl⟩ := hs
  refine ⟨fun hlast => ?_, fun hm => ?_⟩
  · cases hlast
  · exact absurd (Scheduler.init_mappingOf _) hm

/-- The pageids of a node that a completed store has given contents. -/
def everStored (tr : List (Event α n)) (n t : ℕ) : Finset ℕ :=
  (Finset.range n).filter fun p => p % 2 = t ∧ (lastStored p (returns tr)).isSome

/-- In every state that stores, loads, failing work requests and stopped callers can lead to
while every `xa_store` succeeds, the free counts of a node and the pageids that hold one of
its slots add up to its size. Where no call is running the latter are the pageids ever stored
on the node: a slot is never lost, and never given back. -/
theorem occupancy (debugVm : Bool) (hn : n ≤ remoteBufSize >>> pageShift)
    (h : (system (initScheduler debugVm) host n memory).Run tr s) {t : ℕ} (ht : t < maxRemoteNodes) :
    (∑ g ∈ Finset.range ((initScheduler debugVm).nrRemoteMaps t),
        (s.driver.sched.remoteMap t g).freePages) + (holders s.driver.held n t).card =
          remoteBufSize >>> pageShift ∧
      ((∀ p : Fin n, s.driver.op p = .idle) → holders s.driver.held n t = everStored tr n t) := by
  have hf := Concurrent.fits_initScheduler debugVm hn
  have hp := driver_placed hf h
  refine ⟨?_, fun hidle => ?_⟩
  · rw [free_add_held hp.inv.rep ht fun p l hl => ?_]
    · rw [initScheduler_nrRemoteMaps]
      decide
    · exact (hp.inv.held_parity (t := l.1) (x := l.2) hl).1
  · ext p
    simp only [holders, everStored, Finset.mem_filter, Finset.mem_range]
    refine and_congr_right fun hlt => ?_
    have hop : s.driver.op p = .idle := hidle ⟨p, hlt⟩
    have hr := run_recorded hf h ⟨p, hlt⟩
    have hheld : s.driver.held p = s.driver.sched.mappingOf p := by
      simp [Concurrent.State.held, Concurrent.State.recorded, hop, Op.reserved, Op.released]
    rw [hheld]
    constructor
    · intro hmap
      obtain ⟨⟨t', x⟩, hm, rfl⟩ := Option.map_eq_some_iff.mp hmap
      refine ⟨(hp.inv.parity p t' x hm).symm, (hr.stored (by simp [hm])).resolve_right ?_⟩
      simp [hop, Op.storing]
    · rintro ⟨rfl, hlast⟩
      obtain ⟨⟨t', x⟩, hm⟩ := Option.ne_none_iff_exists'.mp (hr.mapped hlast)
      rw [hm, hp.inv.parity p t' x hm]
      rfl

/-- Two overlapping stores, one of which takes the slot that the other has released, hold two
slots of node 1. -/
theorem occupancy_overlapping : ∃ s : State ℕ 4,
    (∑ g ∈ Finset.range 128, (s.driver.sched.remoteMap 1 g).freePages) + 2 = 2097152 := by
  obtain ⟨-, t, -, -, -, ht, hidle⟩ := Concurrent.overlapping_run (n := 4) le_rfl
  have hsmall : 4 ≤ remoteBufSize >>> pageShift := by decide
  obtain ⟨tr, s, hs, -, hret, rfl, -⟩ := @realized ℕ _ _ ⟨6, false⟩
    (Concurrent.fits_initScheduler false hsmall) (by decide) _ _ _ ht
  obtain ⟨hsum, hholders⟩ := occupancy false hsmall hs (show 1 < maxRemoteNodes by decide)
  have htwo : everStored tr 4 1 = {1, 3} := by
    rw [everStored, hret]
    decide
  rw [hholders fun p => congrFun hidle p, htwo] at hsum
  exact ⟨s, hsum⟩

end Multiswap.Transport
