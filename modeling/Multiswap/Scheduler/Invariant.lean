import Multiswap.Scheduler.Slots

/-!
# The representation invariant

The free counts, the bitmaps and the xarrays say the same thing. The invariant
is stated for an assignment `held` of slots to pageids: between operations that
is what the xarrays record, and while stores are running it leaves out what they
have released and adds what they have reserved.
-/

namespace Multiswap

open BitSearch (zeroCount firstZero)

/-- Counters and bitmaps agree, the set bits are exactly the held slots, no slot
has two holders, and every recorded entry names a group that exists. -/
structure RepInv (cfg : Config) (held : ℕ → Option (ℕ × ℕ)) (s : Scheduler) : Prop where
  nrPages : ∀ t g, t < maxRemoteNodes → g < cfg.nrRemoteMaps t →
    (s.remoteMap t g).nrPages = remoteAddressSpacePages
  freePages : ∀ t g, t < maxRemoteNodes → g < cfg.nrRemoteMaps t →
    (s.remoteMap t g).freePages = zeroCount (s.remoteMap t g).mapping remoteAddressSpacePages
  owned : ∀ t x, cfg.HasSlot t x → (s.bit t x = true ↔ ∃ p, held p = some (t, x))
  unique : ∀ p q l, held p = some l → held q = some l → p = q
  hasSlot : ∀ p t x, held p = some (t, x) → cfg.HasSlot t x
  inRange : ∀ p l, held p = some l → cfg.InRange p
  entries : ∀ p t x, s.mappingOf p = some (t, x) → cfg.HasSlot t x

/-- The invariant between operations: pageids hold what is recorded for them. -/
def Scheduler.Consistent (cfg : Config) (s : Scheduler) : Prop := RepInv cfg s.mappingOf s

theorem hasSlot_iff {cfg : Config} {t x : ℕ} :
    cfg.HasSlot t x ↔ t < 2 ∧ x / 16384 < cfg.nrRemoteMaps t := Iff.rfl

theorem hasSlot_group {cfg : Config} {t g b : ℕ} (ht : t < 2) (hg : g < cfg.nrRemoteMaps t)
    (hb : b < remoteAddressSpacePages) : cfg.HasSlot t (g * remoteAddressSpacePages + b) := by
  simp only [remoteAddressSpacePages_eq] at hb ⊢
  refine hasSlot_iff.mpr ⟨ht, ?_⟩
  have : (g * 16384 + b) / 16384 = g := by omega
  rwa [this]

/-- After `init_scheduler` every slot is free and no pageid is mapped. -/
theorem RepInv.init (cfg : Config) : RepInv cfg (fun _ => none) Scheduler.init where
  nrPages _ _ _ _ := rfl
  freePages _ _ _ _ := by simp [Scheduler.init]
  owned _ _ _ := by simp
  unique _ _ _ h := by cases h
  hasSlot _ _ _ h := by cases h
  inRange _ _ h := by cases h
  entries _ _ _ h := by simp at h

/-- The group sizes and the free counts of one node are right. -/
structure NodeCounts (cfg : Config) (s : Scheduler) (t : ℕ) : Prop where
  nrPages : ∀ g < cfg.nrRemoteMaps t, (s.remoteMap t g).nrPages = remoteAddressSpacePages
  freePages : ∀ g < cfg.nrRemoteMaps t,
    (s.remoteMap t g).freePages = zeroCount (s.remoteMap t g).mapping remoteAddressSpacePages

theorem RepInv.node {cfg : Config} {held : ℕ → Option (ℕ × ℕ)} {s : Scheduler} {t : ℕ}
    (h : RepInv cfg held s) (ht : t < 2) : NodeCounts cfg s t where
  nrPages g hg := h.nrPages t g ht hg
  freePages g hg := h.freePages t g ht hg

/-- The bit array of a group, read by slot. -/
theorem bit_group (s : Scheduler) (t g : ℕ) {b : ℕ} (hb : b < remoteAddressSpacePages) :
    s.bit t (g * remoteAddressSpacePages + b) = (s.remoteMap t g).mapping b := by
  simp only [remoteAddressSpacePages_eq] at hb
  have h1 : (g * 16384 + b) / 16384 = g := by omega
  have h2 : (g * 16384 + b) % 16384 = b := by omega
  simp only [Scheduler.bit, remoteAddressSpacePages_eq, h1, h2]

namespace NodeCounts

variable {cfg : Config} {s : Scheduler} {t g b : ℕ}

/-- A group without free pages has every bit set. -/
theorem bits_of_full (h : NodeCounts cfg s t) (hg : g < cfg.nrRemoteMaps t)
    (hfull : (s.remoteMap t g).freePages = 0) (hb : b < remoteAddressSpacePages) :
    s.bit t (g * remoteAddressSpacePages + b) = true := by
  rw [bit_group s t g hb]
  exact BitSearch.zeroCount_eq_zero.mp ((h.freePages g hg).symm.trans hfull) b hb

/-- A group with free pages has a zero bit below `nr_pages`, and the search finds the lowest. -/
theorem firstZero_lt (h : NodeCounts cfg s t) (hg : g < cfg.nrRemoteMaps t)
    (hfree : (s.remoteMap t g).freePages ≠ 0) :
    firstZero (s.remoteMap t g).mapping remoteAddressSpacePages < remoteAddressSpacePages := by
  rw [BitSearch.firstZero_lt_iff, ← h.freePages g hg]
  exact hfree

/-- The bit that a search finds belongs to a free slot. -/
theorem bit_firstZero (h : NodeCounts cfg s t) (hg : g < cfg.nrRemoteMaps t)
    (hfree : (s.remoteMap t g).freePages ≠ 0) :
    s.bit t (g * remoteAddressSpacePages +
      firstZero (s.remoteMap t g).mapping remoteAddressSpacePages) = false := by
  rw [bit_group s t g (h.firstZero_lt hg hfree)]
  exact BitSearch.firstZero_zero (h.firstZero_lt hg hfree)

/-- Every slot of the group below the bit that a search finds is taken. -/
theorem bit_below_firstZero (h : NodeCounts cfg s t) (hg : g < cfg.nrRemoteMaps t)
    (hfree : (s.remoteMap t g).freePages ≠ 0)
    (hb : b < firstZero (s.remoteMap t g).mapping remoteAddressSpacePages) :
    s.bit t (g * remoteAddressSpacePages + b) = true := by
  rw [bit_group s t g (hb.trans (h.firstZero_lt hg hfree))]
  exact BitSearch.firstZero_set_below hb

/-- The counter of a group is positive exactly when one of its slots is free. -/
theorem freePages_ne_zero_iff (h : NodeCounts cfg s t) (hg : g < cfg.nrRemoteMaps t) :
    (s.remoteMap t g).freePages ≠ 0 ↔
      ∃ b < remoteAddressSpacePages, s.bit t (g * remoteAddressSpacePages + b) = false := by
  constructor
  · intro hfree
    exact ⟨_, h.firstZero_lt hg hfree, h.bit_firstZero hg hfree⟩
  · rintro ⟨b, hb, hbit⟩ hfull
    rw [h.bits_of_full hg hfull hb] at hbit
    cases hbit

end NodeCounts

namespace RepInv

variable {cfg : Config} {held : ℕ → Option (ℕ × ℕ)} {s : Scheduler} {p t x g b : ℕ}

theorem congr {held' : ℕ → Option (ℕ × ℕ)} (h : RepInv cfg held s) (he : ∀ q, held' q = held q) :
    RepInv cfg held' s := by
  rwa [funext he]

/-- What the pageids hold after one of them has changed what it holds. -/
theorem update_eq_some {q : ℕ} {l : ℕ × ℕ} {v : Option (ℕ × ℕ)} :
    Function.update held p v q = some l ↔ q = p ∧ v = some l ∨ q ≠ p ∧ held q = some l := by
  by_cases hqp : q = p
  · subst hqp
    simp
  · simp [hqp]

/-- Releasing the slot that a pageid holds. -/
theorem clearBit (h : RepInv cfg held s) (hp : held p = some (t, x)) :
    RepInv cfg (Function.update held p none)
      (s.clearBit t (x / remoteAddressSpacePages) (x % remoteAddressSpacePages)) := by
  have hslot := h.hasSlot p t x hp
  have hmod : x % remoteAddressSpacePages < remoteAddressSpacePages := Nat.mod_lt _ (by simp)
  have hset : s.bit t x = true := (h.owned t x hslot).mpr ⟨p, hp⟩
  have hheld : ∀ {q l}, Function.update held p none q = some l → q ≠ p ∧ held q = some l :=
    fun hq => (update_eq_some.mp hq).resolve_left (by simp)
  refine ⟨fun t' g' ht hg => ?_, fun t' g' ht hg => ?_, fun t' y hy => ?_,
    fun q r l hq hr => h.unique q r l (hheld hq).2 (hheld hr).2,
    fun q t' y hq => h.hasSlot q t' y (hheld hq).2, fun q l hq => h.inRange q l (hheld hq).2,
    fun q t' y hq => h.entries q t' y hq⟩
  · rw [Scheduler.clearBit_remoteMap]
    split
    · exact h.nrPages t' g' ht hg
    · exact h.nrPages t' g' ht hg
  · rw [Scheduler.clearBit_remoteMap]
    split
    · next heq =>
      obtain ⟨rfl, rfl⟩ := heq
      simp only [h.freePages _ _ ht hg]
      exact (BitSearch.zeroCount_clear hmod hset).symm
    · exact h.freePages t' g' ht hg
  · rw [Scheduler.clearBit_bit s hmod, slot_split]
    split
    · next heq =>
      obtain ⟨rfl, rfl⟩ := heq
      simp only [Bool.false_eq_true, false_iff, not_exists]
      intro q hq
      exact (hheld hq).1 (h.unique q p _ (hheld hq).2 hp)
    · next hne =>
      rw [h.owned t' y hy]
      constructor
      · rintro ⟨q, hq⟩
        refine ⟨q, update_eq_some.mpr (.inr ⟨?_, hq⟩)⟩
        rintro rfl
        rw [hp] at hq
        exact hne (by simpa [eq_comm] using hq)
      · rintro ⟨q, hq⟩
        exact ⟨q, (hheld hq).2⟩

/-- Reserving a free slot for a pageid that holds none. -/
theorem setBit (h : RepInv cfg held s) (hp : held p = none) (hr : cfg.InRange p) (ht : t < 2)
    (hg : g < cfg.nrRemoteMaps t) (hb : b < remoteAddressSpacePages)
    (hfree : s.bit t (g * remoteAddressSpacePages + b) = false) :
    RepInv cfg (Function.update held p (some (t, g * remoteAddressSpacePages + b)))
      (s.setBit t g b) := by
  have hslot := hasSlot_group ht hg hb
  have hnone : ∀ q, held q ≠ some (t, g * remoteAddressSpacePages + b) := by
    intro q hq
    rw [(h.owned t _ hslot).mpr ⟨q, hq⟩] at hfree
    cases hfree
  refine ⟨fun t' g' ht hg => ?_, fun t' g' ht hg => ?_, fun t' y hy => ?_, fun q r l hq hr => ?_,
    fun q t' y hq => ?_, fun q l hq => ?_, fun q t' y hq => h.entries q t' y hq⟩
  · rw [Scheduler.setBit_remoteMap]
    split
    · exact h.nrPages t' g' ht hg
    · exact h.nrPages t' g' ht hg
  · rw [Scheduler.setBit_remoteMap]
    split
    · next heq =>
      obtain ⟨rfl, rfl⟩ := heq
      simp only [h.freePages _ _ ht hg]
      rw [bit_group s t' g' hb] at hfree
      have := BitSearch.zeroCount_set hb hfree
      omega
    · exact h.freePages t' g' ht hg
  · rw [Scheduler.setBit_bit s hb]
    split
    · next heq =>
      obtain ⟨rfl, rfl⟩ := heq
      simp only [true_iff]
      exact ⟨p, by simp⟩
    · next hne =>
      rw [h.owned t' y hy]
      constructor
      · rintro ⟨q, hq⟩
        refine ⟨q, update_eq_some.mpr (.inr ⟨?_, hq⟩)⟩
        rintro rfl
        rw [hp] at hq
        cases hq
      · rintro ⟨q, hq⟩
        obtain ⟨-, hl⟩ | ⟨-, hq⟩ := update_eq_some.mp hq
        · cases hl
          exact absurd ⟨rfl, rfl⟩ hne
        · exact ⟨q, hq⟩
  · obtain ⟨rfl, hl⟩ | ⟨-, hq'⟩ := update_eq_some.mp hq <;>
      obtain ⟨hrp, hl'⟩ | ⟨-, hr'⟩ := update_eq_some.mp hr
    · exact hrp.symm
    · exact absurd (hr'.trans hl.symm) (hnone r)
    · exact absurd (hq'.trans hl'.symm) (hnone q)
    · exact h.unique q r l hq' hr'
  · obtain ⟨-, hl⟩ | ⟨-, hq⟩ := update_eq_some.mp hq
    · cases hl
      exact hslot
    · exact h.hasSlot q t' y hq
  · obtain ⟨rfl, -⟩ | ⟨-, hq⟩ := update_eq_some.mp hq
    · exact hr
    · exact h.inRange q l hq

/-- Recording a slot of an existing group changes no bitmap. -/
theorem xaStore (h : RepInv cfg held s) (hslot : cfg.HasSlot t x) (hx : x < 2 ^ 59) (p : ℕ) :
    RepInv cfg held (s.xaStore (p >>> remoteAddressSpaceShift) p (slotEntry t x)) := by
  refine ⟨h.nrPages, h.freePages, h.owned, h.unique, h.hasSlot, h.inRange, fun q t' y hq => ?_⟩
  rw [Scheduler.xaStore_mappingOf] at hq
  split at hq
  · have ht : t < 16 := hslot.1.trans (by decide)
    rw [decodeEntry_slotEntry ht hx] at hq
    simp only [Option.some.injEq, Prod.mk.injEq] at hq
    obtain ⟨rfl, rfl⟩ := hq
    exact hslot
  · exact h.entries q t' y hq

end RepInv

/-- One group for each node and three address spaces: more pageids than slots. -/
def smallNodes : Config where
  nrRemoteMaps _ := 1
  nrRemoteSpaces := 3
  debugVm := false

/-- The state in which the nodes that `full` names are full: the slots of node
`t` are those of the first pageids of parity `t`. -/
def Scheduler.filled (full : ℕ → Bool) : Scheduler where
  remoteMap t _ :=
    ⟨fun _ => full t, remoteAddressSpacePages, if full t then 0 else remoteAddressSpacePages⟩
  remoteSpaces _ p := if p < 32768 ∧ full (p % 2) = true then slotEntry (p % 2) (p / 2) else 0

theorem Scheduler.filled_mappingOf (full : ℕ → Bool) (p : ℕ) :
    (filled full).mappingOf p =
      if p < 32768 ∧ full (p % 2) = true then some (p % 2, p / 2) else none := by
  simp only [mappingOf, xaLoad, filled]
  split
  · exact decodeEntry_slotEntry (by omega) (by omega)
  · rfl

theorem Scheduler.filled_bit (full : ℕ → Bool) (t x : ℕ) : (filled full).bit t x = full t := rfl

theorem smallNodes_hasSlot {t x : ℕ} : smallNodes.HasSlot t x ↔ t < 2 ∧ x < 16384 := by
  rw [hasSlot_iff]
  simp only [smallNodes]
  omega

theorem Scheduler.filled_consistent (full : ℕ → Bool) : (filled full).Consistent smallNodes := by
  have hmap : ∀ {p t x}, (filled full).mappingOf p = some (t, x) ↔
      p < 32768 ∧ full t = true ∧ t = p % 2 ∧ x = p / 2 := by
    intro p t x
    rw [filled_mappingOf]
    split
    · next h =>
      simp only [Option.some.injEq, Prod.mk.injEq]
      constructor
      · rintro ⟨rfl, rfl⟩
        exact ⟨h.1, h.2, rfl, rfl⟩
      · rintro ⟨_, _, rfl, rfl⟩
        exact ⟨rfl, rfl⟩
    · next h =>
      simp only [reduceCtorEq, false_iff]
      rintro ⟨hp, hf, rfl, _⟩
      exact h ⟨hp, hf⟩
  refine ⟨fun _ _ _ _ => rfl, fun t g _ _ => ?_, fun t x hx => ?_, fun p q l hp hq => ?_,
    fun p t x hp => ?_, fun p l hp => ?_, fun p t x hp => ?_⟩
  · cases hf : full t <;> simp [filled, hf]
  · rw [smallNodes_hasSlot] at hx
    rw [filled_bit]
    constructor
    · exact fun hf => ⟨2 * x + t, hmap.mpr ⟨by omega, hf, by omega, by omega⟩⟩
    · rintro ⟨p, hp⟩
      exact (hmap.mp hp).2.1
  · obtain ⟨t, x⟩ := l
    have := hmap.mp hp
    have := hmap.mp hq
    omega
  · have := hmap.mp hp
    exact smallNodes_hasSlot.mpr ⟨by omega, by omega⟩
  · obtain ⟨t, x⟩ := l
    have := hmap.mp hp
    change p >>> 14 < 3
    rw [Nat.shiftRight_eq_div_pow]
    omega
  · have := hmap.mp hp
    exact smallNodes_hasSlot.mpr ⟨by omega, by omega⟩

end Multiswap
