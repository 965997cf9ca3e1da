import Mathlib.Tactic.Abel
import Multiswap.Loading.Defs

/-!
# What a failed loading of the scheduler leaves behind

A node becomes known to the exit functions when all of it has been allocated. So
what was allocated for the first node that needs a bitmap which cannot be had is
never freed, and everything else is.
-/

namespace Multiswap.Loading

open Ledger (settle Frees Balanced release rest acquire_apply)
open StateError (bind_apply)

variable {k : Answers} {s : Globals} {H : Multiset Resource} {t u m n nr i : ℕ}

theorem release_frees (r : Resource) : Frees Globals.log rest {r} (release r : M PUnit) :=
  Ledger.release_frees r

theorem kvfree_frees (p : Bool) (r : Resource) :
    Frees Globals.log rest (if p then {r} else 0) (kvfree p r) := Ledger.releaseIf_frees p r

/-- The bitmaps of the first `n` groups of a node. -/
def mappingsHeld (t n : ℕ) : Multiset Resource :=
  ((List.range n).map fun i => ({.mapping t i} : Multiset Resource)).sum

/-- The array and the bitmaps of a node with `nr` groups. -/
def arrayHeld (nr t : ℕ) : Multiset Resource := mappingsHeld t nr + {.maps t}

/-- What the first `m` nodes have, with `nr` groups each. -/
def nodesHeld (nr m : ℕ) : Multiset Resource := ((List.range m).map (arrayHeld nr)).sum

/-- What `remote_map[t]` points to. -/
def Globals.nodeHeld (s : Globals) (t : ℕ) : Multiset Resource :=
  if (s.remoteMap t).isSome then arrayHeld (s.nrRemoteMaps t) t else 0

@[simp] theorem mappingsHeld_zero (t : ℕ) : mappingsHeld t 0 = 0 := rfl

theorem mappingsHeld_succ (t n : ℕ) :
    mappingsHeld t (n + 1) = .mapping t n ::ₘ mappingsHeld t n := by
  rw [mappingsHeld, List.sum_range_succ, add_comm, Multiset.singleton_add]
  rfl

theorem nodesHeld_succ (nr m : ℕ) : nodesHeld nr (m + 1) = nodesHeld nr m + arrayHeld nr m :=
  List.sum_range_succ _ _

/-- The groups of `maps` below `n` are as `init_remote_bitmap` makes them. -/
def FreshBelow (t n : ℕ) (maps : ℕ → RemoteBitmap) : Prop :=
  ∀ i < n, maps i = Scheduler.init.remoteMap t i

/-- The first `m` nodes have been built with `nr` groups each, and nothing else. -/
structure Built (nr m : ℕ) (s : Globals) : Prop where
  node : ∀ t < m, ∃ maps, s.remoteMap t = some maps ∧ FreshBelow t nr maps ∧ s.nrRemoteMaps t = nr
  fresh : ∀ t, m ≤ t → s.remoteMap t = none ∧ s.nrRemoteMaps t = 0
  spaces : s.remoteSpaces = none ∧ s.nrRemoteSpaces = 0

theorem built_initial (nr : ℕ) : Built nr 0 .initial :=
  ⟨fun _ h => absurd h (Nat.not_lt_zero _), fun _ _ => ⟨rfl, rfl⟩, ⟨rfl, rfl⟩⟩

theorem Built.log (h : Built nr m s) (l : List (Ledger.Entry Resource)) :
    Built nr m { s with log := l } := ⟨h.node, h.fresh, h.spaces⟩

theorem Built.next (h : Built nr m s) {maps : ℕ → RemoteBitmap} (hmaps : FreshBelow m nr maps)
    (l : List (Ledger.Entry Resource)) :
    Built nr (m + 1) { s with
      remoteMap := Function.update s.remoteMap m (some maps)
      nrRemoteMaps := Function.update s.nrRemoteMaps m nr
      log := l } where
  node t ht := by
    by_cases htm : t = m
    · subst htm
      exact ⟨maps, by simp, hmaps, by simp⟩
    · simpa [htm] using h.node t (by omega)
  fresh t ht := by
    have htm : t ≠ m := by omega
    simpa [htm] using h.fresh t (by omega)
  spaces := h.spaces

theorem Built.null (h : Built nr m s) (t : ℕ) (hnone : s.remoteMap t = none) :
    s.nrRemoteMaps t = 0 := by
  by_cases ht : t < m
  · obtain ⟨maps, hmaps, -⟩ := h.node t ht
    rw [hmaps] at hnone
    cases hnone
  · exact (h.fresh t (Nat.not_lt.mp ht)).2

theorem Built.nodeHeld_of_lt (h : Built nr m s) (ht : t < m) : s.nodeHeld t = arrayHeld nr t := by
  obtain ⟨maps, hmaps, -, hnr⟩ := h.node t ht
  simp [Globals.nodeHeld, hmaps, hnr]

theorem Built.nodeHeld_of_le (h : Built nr m s) (ht : m ≤ t) : s.nodeHeld t = 0 := by
  simp [Globals.nodeHeld, (h.fresh t ht).1]

/-- The exit functions find what the nodes have. -/
theorem Built.sum_nodeHeld (h : Built nr m s) (hmn : m ≤ n) :
    ((List.range n).map s.nodeHeld).sum = nodesHeld nr m := by
  induction n, hmn using Nat.le_induction with
  | base =>
    refine congrArg List.sum (List.map_congr_left fun t ht => ?_)
    exact h.nodeHeld_of_lt (List.mem_range.mp ht)
  | succ n hn ih => rw [List.sum_range_succ, ih, h.nodeHeld_of_le hn, add_zero]

/-! ## The exit functions -/

theorem exitRemoteBitmap_ok (hnull : s.remoteMap t = none → s.nrRemoteMaps t = 0)
    (hs : settle s.log = some (s.nodeHeld t + H)) :
    ∃ l, exitRemoteBitmap t s =
        .ok ⟨⟩ { s with remoteMap := Function.update s.remoteMap t none, log := l } ∧
      settle l = some H := by
  have hmappings := Frees.forM (fun i => release_frees (.mapping t i)) (List.range (s.nrRemoteMaps t))
  have harray := hmappings.bind (kvfree_frees (s.remoteMap t).isSome (.maps t))
  have hheld : s.nodeHeld t = mappingsHeld t (s.nrRemoteMaps t) +
      if (s.remoteMap t).isSome then {.maps t} else 0 := by
    cases hmap : s.remoteMap t with
    | none => simp [Globals.nodeHeld, hmap, hnull hmap]
    | some maps => simp [Globals.nodeHeld, hmap, arrayHeld]
  rw [hheld] at hs
  obtain ⟨s', hrun, hs', hrest⟩ := harray s H hs
  refine ⟨s'.log, ?_, hs'⟩
  have hguard : ¬ ((s.remoteMap t).isNone ∧ s.nrRemoteMaps t ≠ 0) := by
    rintro ⟨hnone, hnr⟩
    exact hnr (hnull (Option.isNone_iff_eq_none.mp hnone))
  obtain ⟨_, s₁, hmappings, hmaps⟩ := StateError.bind_eq_ok.mp hrun
  simp only [exitRemoteBitmap, bind_apply, StateError.get_apply, hguard, if_false, hmappings, hmaps,
    StateError.modify_apply]
  rw [show s' = { s with log := s'.log } from Ledger.eq_of_rest hrest]

theorem exitRemoteBitmaps_ok (l : List ℕ) (hnodup : l.Nodup)
    (hnull : ∀ t ∈ l, s.remoteMap t = none → s.nrRemoteMaps t = 0)
    (hs : settle s.log = some ((l.map s.nodeHeld).sum + H)) :
    ∃ s', l.forM exitRemoteBitmap s = .ok ⟨⟩ s' ∧ settle s'.log = some H ∧
      (∀ t, s'.remoteMap t = if t ∈ l then none else s.remoteMap t) ∧
      s'.remoteSpaces = s.remoteSpaces ∧ s'.nrRemoteSpaces = s.nrRemoteSpaces := by
  induction l generalizing s with
  | nil => exact ⟨s, rfl, by simpa using hs, fun t => by simp, rfl, rfl⟩
  | cons t l ih =>
    obtain ⟨htl, hnodup⟩ := List.nodup_cons.mp hnodup
    rw [List.map_cons, List.sum_cons, add_assoc] at hs
    obtain ⟨log, hexit, hlog⟩ := exitRemoteBitmap_ok (hnull t List.mem_cons_self) hs
    -- The other nodes of the list are as they were.
    have hother : ∀ u ∈ l, Function.update s.remoteMap t none u = s.remoteMap u := fun u hu =>
      Function.update_of_ne (fun heq : u = t => htl (heq ▸ hu)) _ _
    have hsum : (l.map ({ s with remoteMap := Function.update s.remoteMap t none, log := log } :
        Globals).nodeHeld).sum = (l.map s.nodeHeld).sum := by
      refine congrArg List.sum (List.map_congr_left fun u hu => ?_)
      simp only [Globals.nodeHeld, hother u hu]
    obtain ⟨s', hrun, hs', hmap, hspaces⟩ := ih hnodup
      (s := { s with remoteMap := Function.update s.remoteMap t none, log := log })
      (fun u hu hnone => hnull u (List.mem_cons_of_mem t hu) (hother u hu ▸ hnone))
      (by rw [hsum]; exact hlog)
    refine ⟨s', ?_, hs', fun u => ?_, hspaces⟩
    · show (exitRemoteBitmap t >>= fun _ => l.forM exitRemoteBitmap) s = _
      rw [bind_apply, hexit]
      exact hrun
    · rw [hmap u]
      by_cases hut : u = t
      · subst hut
        simp
      · simp [hut]

theorem exitRemoteAddressSpace_ok (hnull : s.remoteSpaces = none → s.nrRemoteSpaces = 0)
    (hs : settle s.log = some ((if s.remoteSpaces.isSome then {.spaces} else 0) + H)) :
    ∃ l, exitRemoteAddressSpace s =
        .ok ⟨⟩ { s with nrRemoteSpaces := 0, remoteSpaces := none, log := l } ∧
      settle l = some H := by
  obtain ⟨s', hfree, hs', hrest⟩ := kvfree_frees s.remoteSpaces.isSome .spaces s H hs
  refine ⟨s'.log, ?_, hs'⟩
  have hguard : ¬ (s.remoteSpaces.isNone ∧ s.nrRemoteSpaces ≠ 0) := by
    rintro ⟨hnone, hnr⟩
    exact hnr (hnull (Option.isNone_iff_eq_none.mp hnone))
  simp only [exitRemoteAddressSpace, bind_apply, StateError.get_apply, hguard, if_false, hfree,
    StateError.modify_apply]
  rw [show s' = { s with log := s'.log } from Ledger.eq_of_rest hrest]

/-! ## The init functions -/

/-- All allocations for a node succeed. -/
def Answers.Node (k : Answers) (nr t : ℕ) : Prop :=
  k.maps t = true ∧ ∀ i < nr, k.mapping t i = true

theorem initMappings_cases (k : Answers) (fuel : ℕ) {maps : ℕ → RemoteBitmap}
    (hall : ∀ j < i, k.mapping t j = true) (hfresh : FreshBelow t i maps)
    (hs : settle s.log = some (mappingsHeld t i + H)) :
    ∃ r l, initMappings k t fuel i maps s = .ok r { s with log := l } ∧
      ((∃ maps', r = some maps' ∧ (∀ j < i + fuel, k.mapping t j = true) ∧
          FreshBelow t (i + fuel) maps' ∧ settle l = some (mappingsHeld t (i + fuel) + H)) ∨
        (r = none ∧ (∃ j < i + fuel, k.mapping t j = false) ∧
          ∃ L, settle l = some (L + H))) := by
  induction fuel generalizing i s maps with
  | zero => exact ⟨_, s.log, rfl, .inl ⟨maps, rfl, hall, hfresh, hs⟩⟩
  | succ fuel ih =>
    by_cases hfail : k.mapping t i = false
    · refine ⟨none, s.log, by simp [initMappings, hfail], .inr ⟨rfl, ⟨i, by omega, hfail⟩, _, hs⟩⟩
    · have hgot : k.mapping t i = true := Bool.of_not_eq_false hfail
      have hall' : ∀ j < i + 1, k.mapping t j = true := by
        intro j hj
        obtain hlt | rfl := Nat.lt_succ_iff_lt_or_eq.mp hj
        · exact hall j hlt
        · exact hgot
      have hfresh' : FreshBelow t (i + 1) (Function.update maps i
          ⟨fun _ => false, remoteAddressSpacePages, remoteAddressSpacePages⟩) := by
        intro j hj
        by_cases hji : j = i
        · subst hji
          rw [Function.update_self]
          rfl
        · rw [Function.update_of_ne hji]
          exact hfresh j (by omega)
      have hs' := Ledger.settle_acquire hs (.mapping t i)
      rw [← Multiset.cons_add, ← mappingsHeld_succ] at hs'
      obtain ⟨r, l, hrun, hend⟩ := ih (s := { s with log := _ }) hall' hfresh' hs'
      rw [Nat.add_right_comm i 1 fuel] at hend
      refine ⟨r, l, ?_, hend⟩
      simpa [initMappings, hgot, acquire_apply] using hrun

/-- How `init_remote_bitmap` ends. -/
theorem initRemoteBitmap_cases (k : Answers) (nrPages : ℕ) (hb : Built (nrGroups nrPages) m s)
    (hs : settle s.log = some H) :
    ∃ ret s', initRemoteBitmap k m nrPages s = .ok ret s' ∧
      ((ret = 0 ∧ k.Node (nrGroups nrPages) m ∧ Built (nrGroups nrPages) (m + 1) s' ∧
          settle s'.log = some (arrayHeld (nrGroups nrPages) m + H)) ∨
        (ret ≠ 0 ∧ Built (nrGroups nrPages) m s' ∧
          ((k.maps m = false ∧ settle s'.log = some H) ∨
            (k.maps m = true ∧ (∃ i < nrGroups nrPages, k.mapping m i = false) ∧
              ∃ L, settle s'.log = some (.maps m ::ₘ L + H))))) := by
  by_cases hmaps : k.maps m = false
  · refine ⟨-Rdma.enomem, s, by simp [initRemoteBitmap, hmaps], .inr ⟨by decide, hb, .inl ⟨hmaps, hs⟩⟩⟩
  · have hgot : k.maps m = true := Bool.of_not_eq_false hmaps
    have hs' : settle (s.log ++ [.acquire (.maps m)]) = some (mappingsHeld m 0 + (.maps m ::ₘ H)) := by
      rw [mappingsHeld_zero, zero_add]
      exact Ledger.settle_acquire hs (.maps m)
    have hfresh : FreshBelow m 0 fun _ => ⟨fun _ => false, 0, 0⟩ :=
      fun _ hj => absurd hj (Nat.not_lt_zero _)
    obtain ⟨r, l, hrun, hend⟩ := initMappings_cases k (nrGroups nrPages)
      (s := { s with log := s.log ++ [.acquire (.maps m)] })
      (fun _ hj => absurd hj (Nat.not_lt_zero _)) hfresh hs'
    rw [Nat.zero_add] at hend
    obtain ⟨maps, rfl, hall, hfresh, hl⟩ | ⟨rfl, hsome, L, hl⟩ := hend
    · refine ⟨0, _, ?_, .inl ⟨rfl, ⟨hgot, hall⟩, hb.next hfresh l, ?_⟩⟩
      · simp [initRemoteBitmap, hgot, acquire_apply, hrun]
      · rw [arrayHeld, add_assoc, Multiset.singleton_add]
        exact hl
    · refine ⟨-Rdma.enomem, _, ?_, .inr ⟨by decide, hb.log l, .inr ⟨hgot, hsome, L, ?_⟩⟩⟩
      · simp [initRemoteBitmap, hgot, acquire_apply, hrun]
      · rw [Multiset.cons_add, ← Multiset.add_cons]
        exact hl

/-- The loop of `init_scheduler` gets past the nodes whose allocations all succeed. -/
theorem initRemoteBitmaps_cases (k : Answers) (nrPages fuel : ℕ) (hb : Built (nrGroups nrPages) m s)
    (hall : ∀ t < m, k.Node (nrGroups nrPages) t)
    (hs : settle s.log = some (nodesHeld (nrGroups nrPages) m)) :
    ∃ ret s', initRemoteBitmaps k nrPages fuel m s = .ok ret s' ∧
      ((ret = 0 ∧ (∀ t < m + fuel, k.Node (nrGroups nrPages) t) ∧
          Built (nrGroups nrPages) (m + fuel) s' ∧
          settle s'.log = some (nodesHeld (nrGroups nrPages) (m + fuel))) ∨
        (ret ≠ 0 ∧ ∃ u < m + fuel, (∀ t < u, k.Node (nrGroups nrPages) t) ∧
          Built (nrGroups nrPages) u s' ∧
          ((k.maps u = false ∧ settle s'.log = some (nodesHeld (nrGroups nrPages) u)) ∨
            (k.maps u = true ∧ (∃ i < nrGroups nrPages, k.mapping u i = false) ∧
              ∃ L, settle s'.log = some (.maps u ::ₘ L + nodesHeld (nrGroups nrPages) u))))) := by
  induction fuel generalizing m s with
  | zero => exact ⟨0, s, rfl, .inl ⟨rfl, hall, hb, hs⟩⟩
  | succ fuel ih =>
    obtain ⟨ret, s₁, hinit, hend⟩ := initRemoteBitmap_cases k nrPages hb hs
    obtain ⟨rfl, hnode, hb₁, hs₁⟩ | ⟨hret, hb₁, hfail⟩ := hend
    · have hall₁ : ∀ t < m + 1, k.Node (nrGroups nrPages) t := by
        intro t ht
        obtain hlt | rfl := Nat.lt_succ_iff_lt_or_eq.mp ht
        · exact hall t hlt
        · exact hnode
      rw [add_comm, ← nodesHeld_succ] at hs₁
      obtain ⟨ret, s', hrun, hend⟩ := ih hb₁ hall₁ hs₁
      rw [Nat.add_right_comm m 1 fuel] at hend
      refine ⟨ret, s', ?_, hend⟩
      rw [initRemoteBitmaps, bind_apply, hinit]
      exact hrun
    · refine ⟨ret, s₁, ?_, .inr ⟨hret, m, by omega, hall, hb₁, hfail⟩⟩
      rw [initRemoteBitmaps, bind_apply, hinit]
      simp [hret]

/-! ## Loading and unloading -/

/-- All allocations of `init_scheduler` succeed. -/
def Answers.Succeed (k : Answers) (nodes nr : ℕ) : Prop :=
  (∀ t < nodes, k.Node nr t) ∧ k.spaces = true

/-- Neither `remote_map` nor `remote_spaces` points to anything. -/
def Globals.Null (s : Globals) : Prop := (∀ t, s.remoteMap t = none) ∧ s.remoteSpaces = none

/-- `init_scheduler` has returned 0. -/
structure Loaded (nodes nr : ℕ) (s : Globals) : Prop where
  node : ∀ t < nodes, ∃ maps, s.remoteMap t = some maps ∧ FreshBelow t nr maps ∧
    s.nrRemoteMaps t = nr
  spaces : s.remoteSpaces = some Scheduler.init.remoteSpaces
  nrSpaces : s.nrRemoteSpaces = nr
  held : settle s.log = some (nodesHeld nr nodes + {.spaces})

/-- What the loop under `delete_bitmap` does after `m` nodes have been built. -/
theorem delete_bitmap_ok (hb : Built nr m s) (hmn : m ≤ n)
    (hs : settle s.log = some (nodesHeld nr m + H)) :
    ∃ s', exitRemoteBitmaps n s = .ok ⟨⟩ s' ∧ settle s'.log = some H ∧ s'.Null := by
  rw [← hb.sum_nodeHeld hmn] at hs
  obtain ⟨s', hrun, hs', hmap, hspaces, -⟩ :=
    exitRemoteBitmaps_ok (List.range n) List.nodup_range (fun t _ => hb.null t) hs
  refine ⟨s', hrun, hs', fun t => ?_, hspaces.trans hb.spaces.1⟩
  rw [hmap t]
  split
  · rfl
  · next hnot =>
    rw [List.mem_range, Nat.not_lt] at hnot
    exact (hb.fresh t (le_trans hmn hnot)).1

/-- How `init_scheduler` ends: with everything allocated, with everything freed, or
with the group array of a node `u` left that lacks a bitmap. -/
theorem initScheduler_cases (k : Answers) (nodes nrPages : ℕ) :
    (∃ s, initScheduler k nodes nrPages .initial = .ok 0 s ∧
        k.Succeed nodes (nrGroups nrPages) ∧ Loaded nodes (nrGroups nrPages) s) ∨
      (∃ ret s, initScheduler k nodes nrPages .initial = .ok ret s ∧ ret ≠ 0 ∧
        ¬ k.Succeed nodes (nrGroups nrPages) ∧ settle s.log = some 0 ∧ s.Null ∧
        ∃ u ≤ nodes, (∀ t < u, k.Node (nrGroups nrPages) t) ∧ (u < nodes → k.maps u = false)) ∨
      (∃ ret s, initScheduler k nodes nrPages .initial = .ok ret s ∧ ret ≠ 0 ∧
        ∃ u < nodes, (∀ t ≤ u, k.maps t = true) ∧
          (∃ i < nrGroups nrPages, k.mapping u i = false) ∧
          ∃ L, settle s.log = some (.maps u ::ₘ L)) := by
  obtain ⟨ret, s, hrun, hend⟩ := initRemoteBitmaps_cases k nrPages nodes
    (built_initial (nrGroups nrPages)) (fun _ ht => absurd ht (Nat.not_lt_zero _)) rfl
  rw [Nat.zero_add] at hend
  obtain ⟨rfl, hall, hb, hs⟩ | ⟨hret, u, hu, hall, hb, hfail⟩ := hend
  · cases hspaces : k.spaces with
    | true =>
      refine .inl ⟨{ s with
        nrRemoteSpaces := nrGroups nrPages, remoteSpaces := some fun _ _ => 0
        log := s.log ++ [.acquire .spaces] }, ?_, ⟨hall, hspaces⟩, ?_⟩
      · simp [initScheduler, hrun, initRemoteAddressSpace, hspaces, acquire_apply]
      · refine ⟨hb.node, rfl, rfl, ?_⟩
        rw [Ledger.settle_acquire hs, ← Multiset.singleton_add, add_comm]
    | false =>
      obtain ⟨l, hexit, hl⟩ := exitRemoteAddressSpace_ok (H := nodesHeld (nrGroups nrPages) nodes)
        (fun _ => hb.spaces.2) (by simpa [hb.spaces.1] using hs)
      have hb' : Built (nrGroups nrPages) nodes
          { s with nrRemoteSpaces := 0, remoteSpaces := none, log := l } :=
        ⟨hb.node, hb.fresh, ⟨rfl, rfl⟩⟩
      obtain ⟨s', hdelete, hs', hnull⟩ :=
        delete_bitmap_ok (H := 0) hb' le_rfl (by rw [add_zero]; exact hl)
      refine .inr (.inl ⟨-Rdma.enomem, s', ?_, by decide, ?_, hs', hnull, nodes, le_rfl, hall, ?_⟩)
      · simp [initScheduler, hrun, initRemoteAddressSpace, hspaces, hexit, hdelete, Rdma.enomem]
      · rintro ⟨-, hsucceed⟩
        rw [hspaces] at hsucceed
        cases hsucceed
      · exact fun hlt => absurd hlt (Nat.lt_irrefl nodes)
  · obtain ⟨hmaps, hs⟩ | ⟨hmaps, hsome, L, hs⟩ := hfail
    · obtain ⟨s', hdelete, hs', hnull⟩ :=
        delete_bitmap_ok (H := 0) hb (Nat.le_of_lt hu) (by rw [add_zero]; exact hs)
      refine .inr (.inl ⟨ret, s', ?_, hret, ?_, hs', hnull, u, Nat.le_of_lt hu, hall, fun _ => hmaps⟩)
      · simp [initScheduler, hrun, hret, hdelete]
      · rintro ⟨hsucceed, -⟩
        rw [(hsucceed u hu).1] at hmaps
        cases hmaps
    · rw [add_comm] at hs
      obtain ⟨s', hdelete, hs', -⟩ := delete_bitmap_ok hb (Nat.le_of_lt hu) hs
      refine .inr (.inr ⟨ret, s', ?_, hret, u, hu, fun t ht => ?_, hsome, L, hs'⟩)
      · simp [initScheduler, hrun, hret, hdelete]
      · obtain hlt | rfl := Nat.lt_or_eq_of_le ht
        · exact (hall t hlt).1
        · exact hmaps

/-- `exit_scheduler` after a loading that succeeded. -/
theorem exitScheduler_ok (h : Loaded n nr s) :
    ∃ s', exitScheduler n s = .ok ⟨⟩ s' ∧ settle s'.log = some 0 := by
  have hnode : ∀ t ∈ List.range n, s.nodeHeld t = arrayHeld nr t := by
    intro t ht
    obtain ⟨maps, hmaps, -, hnr⟩ := h.node t (List.mem_range.mp ht)
    simp [Globals.nodeHeld, hmaps, hnr]
  have hnull : ∀ t ∈ List.range n, s.remoteMap t = none → s.nrRemoteMaps t = 0 := by
    intro t ht hnone
    obtain ⟨maps, hmaps, -⟩ := h.node t (List.mem_range.mp ht)
    rw [hmaps] at hnone
    cases hnone
  have hs : settle s.log = some (((List.range n).map s.nodeHeld).sum + ({.spaces} + 0)) := by
    rw [h.held, nodesHeld, List.map_congr_left hnode, add_zero]
  obtain ⟨s₁, hrun, hs₁, -, hspaces, -⟩ := exitRemoteBitmaps_ok _ List.nodup_range hnull hs
  have hset : s₁.remoteSpaces = some Scheduler.init.remoteSpaces := hspaces.trans h.spaces
  obtain ⟨l, hexit, hl⟩ := exitRemoteAddressSpace_ok (H := 0)
    (fun hnone => by rw [hset] at hnone; cases hnone) (by simpa [hset] using hs₁)
  refine ⟨{ s₁ with nrRemoteSpaces := 0, remoteSpaces := none, log := l }, ?_, hl⟩
  rw [exitScheduler, bind_apply, exitRemoteBitmaps, hrun]
  exact hexit

/-- A loading of the shipped scheduler that succeeds sets up the configuration and the
state that its operations start from. -/
theorem init_scheduler_config {debugVm : Bool} (hrun : initScheduler k maxRemoteNodes
    (remoteBufSize >>> pageShift) .initial = .ok 0 s) :
    (∀ t < maxRemoteNodes, s.nrRemoteMaps t = (Multiswap.initScheduler debugVm).nrRemoteMaps t ∧
        ∃ maps, s.remoteMap t = some maps ∧
          FreshBelow t ((Multiswap.initScheduler debugVm).nrRemoteMaps t) maps) ∧
      s.remoteSpaces = some Scheduler.init.remoteSpaces ∧
      s.nrRemoteSpaces = (Multiswap.initScheduler debugVm).nrRemoteSpaces := by
  obtain ⟨s', hinit, -, hload⟩ | ⟨ret, s', hinit, hret, -⟩ | ⟨ret, s', hinit, hret, -⟩ :=
    initScheduler_cases k maxRemoteNodes (remoteBufSize >>> pageShift)
  · rw [hrun] at hinit
    cases hinit
    refine ⟨fun t ht => ?_, hload.spaces, hload.nrSpaces⟩
    obtain ⟨maps, hmaps, hfresh, hnr⟩ := hload.node t ht
    exact ⟨hnr, maps, hmaps, hfresh⟩
  · rw [hrun] at hinit
    cases hinit
    exact absurd rfl hret
  · rw [hrun] at hinit
    cases hinit
    exact absurd rfl hret

/-- `remote_map` and `remote_spaces` point to nothing that was freed. -/
def NothingFreed (s : Globals) : Prop :=
  (∀ t, s.remoteMap t ≠ none →
      s.log.count (.release (.maps t)) < s.log.count (.acquire (.maps t))) ∧
    (s.remoteSpaces ≠ none → s.log.count (.release .spaces) < s.log.count (.acquire .spaces))

/-- The loading returns 0 if and only if all allocations succeed. Otherwise all that
were made have been freed, and if it does, the unloading frees them. -/
def Unwinds (k : Answers) (nodes nrPages : ℕ) : Prop :=
  ∃ ret s, initScheduler k nodes nrPages .initial = .ok ret s ∧
    (ret = 0 ↔ k.Succeed nodes (nrGroups nrPages)) ∧
    (ret ≠ 0 → Balanced s.log ∧ NothingFreed s) ∧
    (ret = 0 → ∃ s', exitScheduler nodes s = .ok ⟨⟩ s' ∧ Balanced s'.log)

/-- The loading unwinds exactly if every node whose group array can be had, like those
of the nodes before it, gets all its bitmaps. -/
theorem init_scheduler_unwinds_iff (k : Answers) (nodes nrPages : ℕ) :
    Unwinds k nodes nrPages ↔ ∀ t < nodes, (∀ u ≤ t, k.maps u = true) →
      ∀ i < nrGroups nrPages, k.mapping t i = true := by
  obtain ⟨s, hrun, hsucceed, hload⟩ | ⟨ret, s, hrun, hret, hfail, hs, hnull, u, hu, hall, hmaps⟩ |
    ⟨ret, s, hrun, hret, u, hu, hmaps, ⟨i, hi, hfail⟩, L, hs⟩ := initScheduler_cases k nodes nrPages
  · obtain ⟨s', hexit, hs'⟩ := exitScheduler_ok hload
    refine iff_of_true ⟨0, s, hrun, iff_of_true rfl hsucceed, fun h => absurd rfl h, fun _ => ?_⟩ ?_
    · exact ⟨s', hexit, (Ledger.balanced_iff hs').mpr rfl⟩
    · intro t ht _
      exact (hsucceed.1 t ht).2
  · refine iff_of_true ⟨ret, s, hrun, iff_of_false hret hfail, fun _ => ⟨?_, ?_, ?_⟩,
      fun h => absurd h hret⟩ ?_
    · exact (Ledger.balanced_iff hs).mpr rfl
    · intro t hset
      exact absurd (hnull.1 t) hset
    · intro hset
      exact absurd hnull.2 hset
    · intro t ht hbefore
      by_cases htu : t < u
      · exact (hall t htu).2
      · have hgot := hbefore u (Nat.not_lt.mp htu)
        rw [hmaps (lt_of_le_of_lt (Nat.not_lt.mp htu) ht)] at hgot
        cases hgot
  · refine iff_of_false ?_ ?_
    · rintro ⟨ret', s', hrun', -, hbal, -⟩
      rw [hrun] at hrun'
      cases hrun'
      have hzero := (Ledger.balanced_iff hs).mp (hbal hret).1
      exact Multiset.cons_ne_zero hzero
    · intro h
      rw [h u hu hmaps i hi] at hfail
      cases hfail

/-- No bitmap can be had, and every other allocation succeeds. -/
def noBitmaps : Answers := ⟨fun _ => true, fun _ _ => false, true⟩

/-- The group array of node 0 is left when its first bitmap cannot be had. -/
theorem init_scheduler_unwinds_counterexample :
    (∃ s, initScheduler noBitmaps maxRemoteNodes (remoteBufSize >>> pageShift) .initial =
        .ok (-12) s ∧ s.log.count (.acquire (.maps 0)) = 1 ∧
      s.log.count (.release (.maps 0)) = 0) ∧
    ¬ ∀ k nodes nrPages, Unwinds k nodes nrPages := by
  have hrun : ∃ s, initScheduler noBitmaps maxRemoteNodes (remoteBufSize >>> pageShift) .initial =
      .ok (-12) s ∧ s.log.count (.acquire (.maps 0)) = 1 ∧
      s.log.count (.release (.maps 0)) = 0 :=
    ⟨_, rfl, rfl, rfl⟩
  refine ⟨hrun, fun h => ?_⟩
  obtain ⟨s, hinit, hacquired, hreleased⟩ := hrun
  obtain ⟨ret, s', hinit', -, hbal, -⟩ := h noBitmaps maxRemoteNodes (remoteBufSize >>> pageShift)
  rw [hinit] at hinit'
  cases hinit'
  have hleft := (hbal (by decide)).1.released (.maps 0)
  omega

end Multiswap.Loading
