import Multiswap.Frontswap.Defs
import Multiswap.Rdma.Endings
import Multiswap.Rdma.Status
import Multiswap.Scheduler.Select

/-!
# Pageids beyond the remote buffer

The size check of the backend tests the offset that the scheduler returned. The
pageid itself is never checked: `sswap_add_mapping` and `sswap_get_mapping` index
`remote_spaces` with it.
-/

namespace Multiswap

open Rdma (Host Outcome Client OfBackend)

variable {α : Type} {cfg : Config} {s : Scheduler} {p : ℕ} {xaErr : Bool} {host : Host} {o : Outcome}
  {c : Client α} {fuel page : ℕ}

/-- The call indexes `remote_spaces` inside its bounds only; and for a pageid
beyond the remote buffer it returns `-1` with nothing transferred or changed. -/
def RefusesBeyond (p : ℕ) (s : Scheduler) (c : Client α)
    (run : ℕ → EStateM.Result Stop (Scheduler × Client α) ℤ) : Prop :=
  (∀ fuel i st, run fuel ≠ .error (.fault (.remoteSpaces i)) st) ∧
  (remoteBufSize ≤ p <<< pageShift → ∃ fuel₀, ∀ fuel, fuel₀ ≤ fuel → run fuel = .ok (-1) (s, c))

/-- No fault of the call is an access to `remote_spaces`. -/
def NoSpaceFault {β : Type} (r : Except Fault β) : Prop := ∀ i, r ≠ .error (.remoteSpaces i)

theorem NoSpaceFault.bind {β γ : Type} {r : Except Fault β} {f : β → Except Fault γ}
    (hr : NoSpaceFault r) (hf : ∀ b, NoSpaceFault (f b)) : NoSpaceFault (r >>= f) := by
  intro i h
  cases r with
  | error e =>
    simp only [Except.bind, Except.error.injEq, Bind.bind] at h
    exact hr i (congrArg _ h)
  | ok b => exact hf b i h

theorem NoSpaceFault.ok {β : Type} (b : β) : NoSpaceFault (.ok b) := fun _ h => by cases h

theorem mapAt_noSpaceFault (t g : ℕ) : NoSpaceFault (mapAt cfg t g) := by
  rw [mapAt]
  split
  · exact .ok _
  · exact fun _ h => by cases h

theorem spaceOf_noSpaceFault (hr : cfg.InRange p) : NoSpaceFault (spaceOf cfg p) := by
  rw [spaceOf_ok hr]
  exact .ok _

theorem placePage_noSpaceFault (t : ℕ) (flags : RemoteMappingFlags) (s : Scheduler) :
    NoSpaceFault (placePage cfg xaErr t p flags s) := by
  refine .bind ((mapAt_noSpaceFault t 0).bind fun _ => .ok _) fun r => ?_
  obtain ⟨slot, flags', s'⟩ := r
  dsimp only
  split
  · exact .ok _
  · split
    · split
      · exact fun _ h => by cases h
      · exact .ok _
    · exact .ok _

theorem sswapAddMapping_noSpaceFault (hr : cfg.InRange p) (t : ℕ) (flags : RemoteMappingFlags)
    (s : Scheduler) : NoSpaceFault (sswapAddMapping cfg xaErr t p flags s) := by
  rw [sswapAddMapping_eq hr]
  refine .bind ?_ fun s₁ => placePage_noSpaceFault t flags s₁
  split
  · exact (mapAt_noSpaceFault _ _).bind fun _ => .ok _
  · exact .ok _

theorem sswapSchedulerWrite_noSpaceFault (xaErr : Bool) (hr : cfg.InRange p) (s : Scheduler) :
    NoSpaceFault (sswapSchedulerWrite cfg xaErr p s) := by
  rw [sswapSchedulerWrite_eq]
  apply (sswapAddMapping_noSpaceFault hr _ _ _).bind
  intro r
  obtain ⟨ret, flags, s₁⟩ := r
  dsimp only
  split
  · exact (sswapAddMapping_noSpaceFault hr _ _ _).bind fun _ => .ok _
  · exact .ok _

theorem sswapSchedulerRead_noSpaceFault (hr : cfg.InRange p) (s : Scheduler) :
    NoSpaceFault (sswapSchedulerRead cfg p s) := by
  apply (spaceOf_noSpaceFault hr).bind
  intro space
  dsimp only
  split
  · exact fun _ h => by cases h
  · exact .ok _

theorem afterTransfer_ofBackend {r : EStateM.Result Stop (Client α) ℤ}
    (hr : ∀ e c', r = .error e c' → OfBackend e) (i : ℕ) (st : Scheduler × Client α) :
    afterTransfer s r ≠ .error (.fault (.remoteSpaces i)) st := by
  intro h
  cases r with
  | ok ret c' => cases h
  | error e c' =>
    simp only [afterTransfer, EStateM.Result.error.injEq] at h
    exact hr e c' rfl i h.1

/-- A store of a pageid with an address space does not index beyond them. -/
theorem store_noSpaceFault (hr : cfg.InRange p) (i : ℕ) (st : Scheduler × Client α) :
    Rdma.store cfg host fuel o xaErr p page (s, c) ≠ .error (.fault (.remoteSpaces i)) st := by
  have hs := sswapSchedulerWrite_noSpaceFault xaErr hr s
  simp only [Rdma.store, sswapStore]
  cases hw : sswapSchedulerWrite cfg xaErr p s with
  | error f =>
    simp only [ne_eq, EStateM.Result.error.injEq, Stop.fault.injEq, not_and]
    rintro rfl
    exact absurd hw (hs i)
  | ok r => exact afterTransfer_ofBackend (fun e c' h => Rdma.sswapRdmaWrite_ends.error _ e c' h) i st

theorem load_noSpaceFault (hr : cfg.InRange p) (i : ℕ) (st : Scheduler × Client α) :
    Rdma.load cfg host fuel o p page (s, c) ≠ .error (.fault (.remoteSpaces i)) st := by
  have hs := sswapSchedulerRead_noSpaceFault hr s
  simp only [Rdma.load, sswapLoad]
  cases hw : sswapSchedulerRead cfg p s with
  | error f =>
    simp only [ne_eq, EStateM.Result.error.injEq, Stop.fault.injEq, not_and]
    rintro rfl
    exact absurd hw (hs i)
  | ok r => exact afterTransfer_ofBackend (fun e c' h => Rdma.sswapRdmaReadSync_ends.error _ e c' h) i st

/-- A store of a pageid without an address space indexes beyond them. -/
theorem store_outOfRange (hr : ¬ cfg.InRange p) :
    Rdma.store cfg host fuel o xaErr p page (s, c) =
      .error (.fault (.remoteSpaces (p >>> remoteAddressSpaceShift))) (s, c) := by
  have hw : sswapSchedulerWrite cfg xaErr p s = .error (.remoteSpaces (p >>> remoteAddressSpaceShift)) :=
    sswapSchedulerWrite_error (sswapAddMapping_outOfRange hr)
  simp only [Rdma.store, sswapStore, hw]

theorem load_outOfRange (hr : ¬ cfg.InRange p) :
    Rdma.load cfg host fuel o p page (s, c) =
      .error (.fault (.remoteSpaces (p >>> remoteAddressSpaceShift))) (s, c) := by
  simp only [Rdma.load, sswapLoad, sswapSchedulerRead, sswapGetMapping, spaceOf_error hr, bind,
    Except.bind]

/-- The bound on the offset in bytes, as a bound on the pageid. -/
theorem beyond_iff (p : ℕ) : remoteBufSize ≤ p <<< pageShift ↔ ¬ p < remoteBufSize >>> pageShift := by
  rw [pageShift_eq, Nat.shiftLeft_eq, Nat.shiftRight_eq_div_pow, remoteBufSize_eq]
  omega

/-- In every state of the shipped scheduler, the stores and loads that are safe
are those of the pageids inside the remote buffer. -/
theorem beyond_refused_iff (debugVm : Bool) (s : Scheduler) (p : ℕ) (host : Host) (o : Outcome)
    (xaErr : Bool) (page : ℕ) (c : Client α) :
    (RefusesBeyond p s c
      (fun fuel => Rdma.store (initScheduler debugVm) host fuel o xaErr p page (s, c)) ↔
      p < remoteBufSize >>> pageShift) ∧
    (RefusesBeyond p s c (fun fuel => Rdma.load (initScheduler debugVm) host fuel o p page (s, c)) ↔
      p < remoteBufSize >>> pageShift) := by
  refine ⟨⟨fun h => ?_, fun hp => ?_⟩, ⟨fun h => ?_, fun hp => ?_⟩⟩
  · by_contra hp
    exact h.1 0 _ _ (store_outOfRange (mt (initScheduler_inRange debugVm p).mp hp))
  · exact ⟨fun fuel i st => store_noSpaceFault ((initScheduler_inRange debugVm p).mpr hp) i st,
      fun hb => absurd hp ((beyond_iff p).mp hb)⟩
  · by_contra hp
    exact h.1 0 _ _ (load_outOfRange (mt (initScheduler_inRange debugVm p).mp hp))
  · exact ⟨fun fuel i st => load_noSpaceFault ((initScheduler_inRange debugVm p).mpr hp) i st,
      fun hb => absurd hp ((beyond_iff p).mp hb)⟩

/-- The first pageid beyond the buffer, right after `init_scheduler`: the store
indexes address space 128 of 128. -/
theorem beyond_refused_counterexample :
    (∀ fuel o, Rdma.store (initScheduler false) ⟨6, false⟩ fuel o false 2097152 0
      (Scheduler.init, Rdma.idleClient) =
        .error (.fault (.remoteSpaces 128)) (Scheduler.init, Rdma.idleClient)) ∧
    ¬ ∀ (s : Scheduler) (p : ℕ) (host : Host) (o : Outcome) (xaErr : Bool) (page : ℕ)
      (c : Client ℕ), RefusesBeyond p s c
        (fun fuel => Rdma.store (initScheduler false) host fuel o xaErr p page (s, c)) := by
  have hr : ¬ (initScheduler false).InRange 2097152 := by decide
  refine ⟨fun fuel o => store_outOfRange hr, fun h => ?_⟩
  have o : Outcome := ⟨0, true, some 4096, 0, .success, 0⟩
  exact (h Scheduler.init 2097152 ⟨6, false⟩ o false 0 Rdma.idleClient).1 0 128 _ (store_outOfRange hr)

end Multiswap
