import Multiswap.Frontswap.Defs
import Multiswap.Rdma.Endings
import Multiswap.Rdma.Status
import Multiswap.Scheduler.Fallback

/-!
# A store when both nodes are full

`sswap_scheduler_write` has no value for failure: when the second attempt finds
no slot either it returns offset `0` of the other node, and `sswap_store` writes
the page there.
-/

namespace Multiswap

open Rdma (Host Outcome Client)

variable {α : Type} {cfg : Config} {s : Scheduler} {p : ℕ} {xaErr : Bool} {host : Host} {o : Outcome}
  {c : Client α} {fuel : ℕ}

/-- Every slot of every node is taken. -/
def NoFreeSlot (cfg : Config) (s : Scheduler) : Prop := ∀ t x, cfg.HasSlot t x → s.bit t x = true

/-- The store returns `-1`, writes no cell of the remote memory, and leaves the
bitmaps, the free counts and the mappings as they were. -/
def ExhaustionReported (s : Scheduler) (c : Client α)
    (run : ℕ → EStateM.Result Stop (Scheduler × Client α) ℤ) : Prop :=
  ∃ fuel₀, ∀ fuel, fuel₀ ≤ fuel → ∃ s' c', run fuel = .ok (-1) (s', c') ∧ c'.remote = c.remote ∧
    s'.remoteMap = s.remoteMap ∧ ∀ q, s'.mappingOf q = s.mappingOf q

/-- With both nodes full the scheduler returns the first slot of the other node. -/
theorem sswapSchedulerWrite_exhausted (h : s.Consistent cfg) (hr : cfg.InRange p)
    (hm : s.mappingOf p = none) (hfull : NoFreeSlot cfg s) :
    sswapSchedulerWrite cfg xaErr p s =
      if 0 < cfg.nrRemoteMaps (preferredNode p) then
        if 0 < cfg.nrRemoteMaps (otherNode p) then .ok (0, otherNode p, s)
        else .error (.remoteMap (otherNode p) 0)
      else .error (.remoteMap (preferredNode p) 0) := by
  have hzero : ∀ t < 2, ∀ g < cfg.nrRemoteMaps t, (s.remoteMap t g).freePages = 0 :=
    fun t ht g hg => (h.node ht).freePages_eq_zero ht (freeSlots_eq_empty.mpr (hfull t)) hg
  rw [sswapSchedulerWrite_noRoom (sswapAddMapping_none hr hm) (hzero _ (preferredNode_lt p)),
    sswapAddMapping_none hr hm, placePage_noRoom (otherNode_lt p) (hzero _ (otherNode_lt p))]
  split
  · split <;> rfl
  · rfl

/-- A store into a full system returns `0`, or not at all. -/
theorem store_exhausted (h : s.Consistent cfg) (hr : cfg.InRange p) (hm : s.mappingOf p = none)
    (hfull : NoFreeSlot cfg s) {page : ℕ} {ret : ℤ} {st : Scheduler × Client α}
    (hrun : Rdma.store cfg host fuel o xaErr p page (s, c) = .ok ret st) : ret = 0 := by
  simp only [Rdma.store, sswapStore, sswapSchedulerWrite_exhausted h hr hm hfull] at hrun
  split at hrun
  · cases hrun
  · next hw =>
    split at hw
    · split at hw
      · simp only [Except.ok.injEq, Prod.mk.injEq] at hw
        obtain ⟨rfl, rfl, rfl⟩ := hw
        cases hret : Rdma.sswapRdmaWrite host fuel o page 0 (otherNode p) c with
        | ok ret' c' =>
          have hzero := Rdma.sswapRdmaWrite_ends.value c ret' c' hret (by decide)
          simp only [hret, afterTransfer, hzero, EStateM.Result.ok.injEq] at hrun
          exact hrun.1.symm
        | error e c' => simp [hret, afterTransfer] at hrun
      · cases hw
    · cases hw

/-- A full system never refuses a store. -/
theorem exhaustion_never_reported (h : s.Consistent cfg) (hr : cfg.InRange p)
    (hm : s.mappingOf p = none) (hfull : NoFreeSlot cfg s) (host : Host) (o : Outcome)
    (xaErr : Bool) (page : ℕ) (c : Client α) :
    ¬ ExhaustionReported s c (fun fuel => Rdma.store cfg host fuel o xaErr p page (s, c)) := by
  rintro ⟨fuel, hreport⟩
  obtain ⟨s', c', hrun, -⟩ := hreport fuel le_rfl
  have hzero : (-1 : ℤ) = 0 := store_exhausted h hr hm hfull hrun
  cases hzero

theorem filled_noFreeSlot : NoFreeSlot smallNodes (Scheduler.filled fun _ => true) :=
  fun _ _ _ => rfl

theorem filled_unmapped (full : ℕ → Bool) : (Scheduler.filled full).mappingOf 32768 = none := by
  simp [Scheduler.filled_mappingOf]

/-- Every step of the transfer succeeds. -/
def succeeding : Outcome := ⟨0, true, some 4096, 0, .success, 0⟩

theorem exhaustion_never_reported_filled :
    ¬ ExhaustionReported (Scheduler.filled fun _ => true) Rdma.idleClient (fun fuel =>
      Rdma.store smallNodes ⟨6, false⟩ fuel succeeding false 32768 0
        (Scheduler.filled fun _ => true, Rdma.idleClient)) :=
  exhaustion_never_reported (Scheduler.filled_consistent _) (by decide) (filled_unmapped _)
    filled_noFreeSlot _ _ _ _ _

/-- The store of pageid 32768 returns `0` and has written its page to the first
cell of node 1. -/
theorem filled_overwrites :
    ∃ c', Rdma.store smallNodes ⟨6, false⟩ 1 succeeding false 32768 0
        (Scheduler.filled fun _ => true, Rdma.idleClient) =
          .ok 0 (Scheduler.filled fun _ => true, c') ∧ c'.remote 1 0 = 7 := by
  have hw : sswapSchedulerWrite smallNodes false 32768 (Scheduler.filled fun _ => true) =
      .ok (0, 1, Scheduler.filled fun _ => true) := by
    rw [sswapSchedulerWrite_exhausted (Scheduler.filled_consistent _) (by decide)
      (filled_unmapped _) filled_noFreeSlot]
    rfl
  obtain ⟨c', hrun, hcell⟩ : ∃ c', Rdma.sswapRdmaWrite ⟨6, false⟩ 1 succeeding 0 0 1
      Rdma.idleClient = .ok 0 c' ∧ c'.remote 1 0 = 7 := ⟨_, rfl, rfl⟩
  exact ⟨c', by simp [Rdma.store, sswapStore, hw, hrun, afterTransfer], hcell⟩

/-- All slots are taken and pageid 32768 has none: its store returns `0` and puts
the page into the cell of pageid 1. -/
theorem exhaustion_counterexample :
    (Scheduler.filled fun _ => true).mappingOf 1 = some (1, 0) ∧
    (∃ c', Rdma.store smallNodes ⟨6, false⟩ 1 succeeding false 32768 0
        (Scheduler.filled fun _ => true, Rdma.idleClient) =
          .ok 0 (Scheduler.filled fun _ => true, c') ∧
      Rdma.idleClient.remote 1 0 = 0 ∧ c'.remote 1 0 = 7) ∧
    ¬ ∀ (cfg : Config) (s : Scheduler) (p : ℕ) (host : Host) (o : Outcome) (xaErr : Bool)
      (page : ℕ) (c : Client ℕ), s.Consistent cfg → cfg.InRange p → s.mappingOf p = none →
        NoFreeSlot cfg s →
          ExhaustionReported s c (fun fuel => Rdma.store cfg host fuel o xaErr p page (s, c)) := by
  refine ⟨by simp [Scheduler.filled_mappingOf], ?_, fun h => ?_⟩
  · obtain ⟨c', hrun, hcell⟩ := filled_overwrites
    exact ⟨c', hrun, rfl, hcell⟩
  · obtain ⟨fuel, hreport⟩ := h smallNodes _ 32768 ⟨6, false⟩ succeeding false 0 Rdma.idleClient
      (Scheduler.filled_consistent _) (by decide) (filled_unmapped _) filled_noFreeSlot
    obtain ⟨s', c', hrun, -⟩ := hreport fuel le_rfl
    have hzero : (-1 : ℤ) = 0 := store_exhausted (Scheduler.filled_consistent _) (by decide)
      (filled_unmapped _) filled_noFreeSlot hrun
    cases hzero

end Multiswap
