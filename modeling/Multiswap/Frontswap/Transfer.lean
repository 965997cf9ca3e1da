import Multiswap.Frontswap.Defs
import Multiswap.Rdma.Endings
import Multiswap.Rdma.Status

/-!
# Reported and unreported failures

Which failed transfers `sswap_rdma_write`, `sswap_rdma_read_sync` and the
frontswap operations above them report as failed.
-/

namespace Multiswap.Rdma

open StateError

variable {α σ : Type} {cfg : Config} {host : Host} {dev page roffset pageid : ℕ} {o : Outcome}
  {c : Client α} {s s' : Scheduler} {xaErr : Bool}

/-- A write returns `0` only if the transfer succeeded, and returns something
else in all other cases. `run fuel` is the call with that much fuel for its loops. -/
def WriteReports (o : Outcome) (run : ℕ → EStateM.Result Stop σ ℤ) : Prop :=
  (∀ fuel s, run fuel = .ok 0 s → o.Succeeds) ∧
  (¬ o.Succeeds → ∃ fuel₀ ret, ret ≠ 0 ∧ ∀ fuel, fuel₀ ≤ fuel → ∃ s, run fuel = .ok ret s)

/-- A read marks its page up to date and returns `0` only if the transfer succeeded. -/
def ReadReports (o : Outcome) (page : σ → Page α) (run : ℕ → EStateM.Result Stop σ ℤ) : Prop :=
  ∀ fuel, (∀ s, run fuel = .ok 0 s → o.Succeeds) ∧
    ((page (finalState (run fuel))).uptodate = true → o.Succeeds)

/-- A write that never returns anything but `0` reports nothing. -/
theorem writeReports_iff {run : ℕ → EStateM.Result Stop σ ℤ}
    (hzero : ∀ fuel ret s, run fuel = .ok ret s → ret = 0) : WriteReports o run ↔ o.Succeeds := by
  constructor
  · rintro ⟨-, hother⟩
    by_contra hs
    obtain ⟨fuel, ret, hne, hret⟩ := hother hs
    obtain ⟨s, hok⟩ := hret fuel le_rfl
    exact hne (hzero fuel ret s hok)
  · intro hs
    exact ⟨fun _ _ _ => hs, fun hn => absurd hs hn⟩

/-- A read that leaves its page alone and does not return `0` when its transfer
is not completed, and returns `0` when it is, reports the failures before the
completion only. -/
theorem readReports_iff {page : σ → Page α} {run : ℕ → EStateM.Result Stop σ ℤ}
    (hfails : ¬ o.Completes → ∀ fuel, (page (finalState (run fuel))).uptodate = false ∧
      ∀ s, run fuel ≠ .ok 0 s)
    (hdone : o.Completes → ∃ fuel s, run fuel = .ok 0 s) :
    ReadReports o page run ↔ ¬ (o.Completes ∧ o.status ≠ .success) := by
  constructor
  · rintro h ⟨ho, hstatus⟩
    obtain ⟨fuel, s, hs⟩ := hdone ho
    exact hstatus ((h fuel).1 s hs).2
  · intro h fuel
    by_cases ho : o.Completes
    · have hs : o.Succeeds := ⟨ho, by by_contra hne; exact h ⟨ho, hne⟩⟩
      exact ⟨fun _ _ => hs, fun _ => hs⟩
    · obtain ⟨hpage, hret⟩ := hfails ho fuel
      refine ⟨fun s hs => absurd hs (hret s), fun hup => ?_⟩
      rw [hpage] at hup
      cases hup

theorem write_reports_iff (hr : roffset < remoteBufSize) (host : Host) (o : Outcome)
    (page dev : ℕ) (c : Client α) :
    WriteReports o (fun fuel => sswapRdmaWrite host fuel o page roffset dev c) ↔ o.Succeeds := by
  apply writeReports_iff
  intro fuel ret c' hrun
  exact sswapRdmaWrite_ends.value c ret c' hrun hr

theorem read_fails (h : Ready host o page roffset dev c) (ho : ¬ o.Completes) (fuel : ℕ) :
    ((finalState (sswapRdmaReadSync host fuel o page roffset dev c)).pages page).uptodate = false ∧
      ∀ c', sswapRdmaReadSync host fuel o page roffset dev c ≠ .ok 0 c' := by
  obtain ⟨hpage, hret⟩ := sswapRdmaReadSync_fails h ho fuel
  exact ⟨by rw [hpage, h.stale], hret⟩

theorem read_reports_iff (h : Ready host o page roffset dev c) :
    ReadReports o (fun c' : Client α => c'.pages page)
      (fun fuel => sswapRdmaReadSync host fuel o page roffset dev c) ↔
        ¬ (o.Completes ∧ o.status ≠ .success) := by
  apply readReports_iff
  · intro ho fuel
    exact read_fails h ho fuel
  · intro ho
    obtain ⟨fuel, c', hrun, -⟩ := sswapRdmaReadSync_completes h ho
    exact ⟨fuel, c', hrun⟩

/-- `sswap_store` is the write at the place that the scheduler returned. -/
theorem store_eq (hs : sswapSchedulerWrite cfg xaErr pageid s = .ok (roffset, dev, s')) (fuel : ℕ) :
    store cfg host fuel o xaErr pageid page (s, c) =
      afterTransfer s' (sswapRdmaWrite host fuel o page roffset dev c) := by
  simp only [store, sswapStore, hs]

/-- `sswap_load` is the read at the place that the scheduler returned. -/
theorem load_eq (hs : sswapSchedulerRead cfg pageid s = .ok (roffset, dev)) (fuel : ℕ) :
    load cfg host fuel o pageid page (s, c) =
      afterTransfer s (sswapRdmaReadSync host fuel o page roffset dev c) := by
  simp only [load, sswapLoad, hs]

theorem store_reports_iff (hr : roffset < remoteBufSize)
    (hs : sswapSchedulerWrite cfg xaErr pageid s = .ok (roffset, dev, s')) (host : Host)
    (o : Outcome) (page : ℕ) (c : Client α) :
    WriteReports o (fun fuel => store cfg host fuel o xaErr pageid page (s, c)) ↔ o.Succeeds := by
  apply writeReports_iff
  intro fuel ret st hrun
  rw [store_eq hs] at hrun
  cases hw : sswapRdmaWrite host fuel o page roffset dev c with
  | error e c' => simp [hw, afterTransfer] at hrun
  | ok ret' c' =>
    have hzero := sswapRdmaWrite_ends.value c ret' c' hw hr
    simp [hw, afterTransfer, hzero] at hrun
    exact hrun.1.symm

theorem load_reports_iff (h : Ready host o page roffset dev c)
    (hs : sswapSchedulerRead cfg pageid s = .ok (roffset, dev)) :
    ReadReports o (fun st : Scheduler × Client α => st.2.pages page)
      (fun fuel => load cfg host fuel o pageid page (s, c)) ↔
        ¬ (o.Completes ∧ o.status ≠ .success) := by
  apply readReports_iff
  · intro ho fuel
    obtain ⟨hup, hret⟩ := read_fails h ho fuel
    rw [load_eq hs]
    cases hrun : sswapRdmaReadSync host fuel o page roffset dev c with
    | error e c' =>
      rw [hrun] at hup
      exact ⟨hup, fun _ => by simp [afterTransfer]⟩
    | ok ret c' =>
      rw [hrun] at hup
      refine ⟨hup, fun st heq => hret c' ?_⟩
      by_cases hne : ret = 0
      · rw [hrun, hne]
      · simp [afterTransfer, hne] at heq
  · intro ho
    obtain ⟨fuel, c', hrun, -⟩ := sswapRdmaReadSync_completes h ho
    exact ⟨fuel, (s, c'), by rw [load_eq hs, hrun]; rfl⟩

/-- The writes report a failed transfer exactly when there is none to report, and
the reads report all but those with a bad completion status. -/
theorem transfer_reports (host : Host) (o : Outcome) (page roffset dev : ℕ) :
    (∀ c : Client α, roffset < remoteBufSize →
      (WriteReports o (fun fuel => sswapRdmaWrite host fuel o page roffset dev c) ↔ o.Succeeds) ∧
      ∀ cfg xaErr pageid s s', sswapSchedulerWrite cfg xaErr pageid s = .ok (roffset, dev, s') →
        (WriteReports o (fun fuel => store cfg host fuel o xaErr pageid page (s, c)) ↔
          o.Succeeds)) ∧
    (∀ c : Client α, Ready host o page roffset dev c →
      (ReadReports o (fun c' : Client α => c'.pages page)
        (fun fuel => sswapRdmaReadSync host fuel o page roffset dev c) ↔
          ¬ (o.Completes ∧ o.status ≠ .success)) ∧
      ∀ cfg pageid s, sswapSchedulerRead cfg pageid s = .ok (roffset, dev) →
        (ReadReports o (fun st : Scheduler × Client α => st.2.pages page)
          (fun fuel => load cfg host fuel o pageid page (s, c)) ↔
            ¬ (o.Completes ∧ o.status ≠ .success))) := by
  constructor
  · intro c hr
    exact ⟨write_reports_iff hr host o page dev c,
      fun cfg xaErr pageid s s' hs => store_reports_iff hr hs host o page c⟩
  · intro c h
    exact ⟨read_reports_iff h, fun cfg pageid s hs => load_reports_iff h hs⟩

/-- Every step succeeds, but the completion has the status `IB_WC_RETRY_EXC_ERR`. -/
def retryExceeded : Outcome := ⟨0, true, some 4096, 0, .error 12, 0⟩

theorem retryExceeded_completes : retryExceeded.Completes := ⟨rfl, ⟨4096, rfl, by decide⟩, rfl⟩

theorem retryExceeded_ready : Ready ⟨6, true⟩ retryExceeded 0 0 0 idleClient :=
  idleClient_ready _ _ _ (by decide) (by decide)

theorem transfer_reports_retryExceeded :
    ¬ WriteReports retryExceeded
        (fun fuel => sswapRdmaWrite ⟨6, true⟩ fuel retryExceeded 0 0 0 idleClient) ∧
      ¬ ReadReports retryExceeded (fun c : Client ℕ => c.pages 0)
        (fun fuel => sswapRdmaReadSync ⟨6, true⟩ fuel retryExceeded 0 0 0 idleClient) := by
  obtain ⟨hwrite, hread⟩ := transfer_reports (α := ℕ) ⟨6, true⟩ retryExceeded 0 0 0
  constructor
  · rw [(hwrite idleClient (by decide)).1]
    rintro ⟨-, hstatus⟩
    cases hstatus
  · rw [(hread idleClient retryExceeded_ready).1, not_not]
    exact ⟨retryExceeded_completes, fun hstatus => by cases hstatus⟩

/-- The failed write returns `0`, and the failed read returns `0` with its page
marked up to date. -/
theorem transfer_reports_counterexample :
    (∃ c', sswapRdmaWrite ⟨6, true⟩ 1 retryExceeded 0 0 0 idleClient = .ok 0 c') ∧
    (∃ c', sswapRdmaReadSync ⟨6, true⟩ 1 retryExceeded 0 0 0 idleClient = .ok 0 c' ∧
      (c'.pages 0).uptodate = true) ∧
    ¬ (∀ (host : Host) (o : Outcome) (page roffset dev : ℕ) (c : Client ℕ),
      Ready host o page roffset dev c →
        WriteReports o (fun fuel => sswapRdmaWrite host fuel o page roffset dev c)) ∧
    ¬ (∀ (host : Host) (o : Outcome) (page roffset dev : ℕ) (c : Client ℕ),
      Ready host o page roffset dev c →
        ReadReports o (fun c' : Client ℕ => c'.pages page)
          (fun fuel => sswapRdmaReadSync host fuel o page roffset dev c)) := by
  have hwrite : ∃ c', sswapRdmaWrite ⟨6, true⟩ 1 retryExceeded 0 0 0 idleClient = .ok 0 c' :=
    ⟨_, rfl⟩
  have hread : ∃ c', sswapRdmaReadSync ⟨6, true⟩ 1 retryExceeded 0 0 0 idleClient = .ok 0 c' ∧
      (c'.pages 0).uptodate = true := ⟨_, rfl, rfl⟩
  refine ⟨hwrite, hread, fun h => ?_, fun h => ?_⟩
  · obtain ⟨c', hrun⟩ := hwrite
    have hs := (h _ _ _ _ _ _ retryExceeded_ready).1 1 c' hrun
    cases hs.2
  · obtain ⟨c', hrun, -⟩ := hread
    have hs := (h _ _ _ _ _ _ retryExceeded_ready 1).1 c' hrun
    cases hs.2

end Multiswap.Rdma
