import Multiswap.Frontswap.Builds
import Multiswap.Lib.Machine
import Multiswap.Server.Defs

/-!
# The builds without the scheduler

`multiswap.c` with one of the macros `USESWAP`, `USEDRAM`, `FINE_GRAINED` and
`COARSE_GRAINED` in place of `USE_SCHEDULE`: the offset of a page is its pageid, and
its node is a function of the pageid.
-/

namespace Multiswap

open CellStore (last)
open Rdma (Host Outcome)
open StateError (finalState)

/-- `RATING`. -/
def rating : ℕ := 3

/-- `schedule_node`. -/
def scheduleNode (pageid : ℕ) : ℕ := if pageid % rating = rating - 1 then 1 else 0

/-- `pageid << PAGE_SHIFT`. -/
def pageOffset (pageid : ℕ) : ℕ := u64 (pageid <<< pageShift)

/-- The macros of `multiswap.c` other than `USE_SCHEDULE`. -/
inductive StaticBuild where
  | useswap
  | usedram
  | fineGrained
  | coarseGrained
  deriving DecidableEq, Repr

namespace StaticBuild

variable {β : Type}

/-- The node of a page. `USESWAP` returns before there is one. -/
def dev (pageid : ℕ) : StaticBuild → Option ℕ
  | .useswap => none
  | .usedram => some 0
  | .fineGrained => some (scheduleNode pageid)
  | .coarseGrained => some (if pageOffset pageid > oneGb * 4 then 1 else 0)

/-- The body that `sswap_store` and `sswap_load` share. -/
def transferPage (b : StaticBuild) (transfer : ℕ → ℕ → EStateM Stop β ℤ) (pageid : ℕ) :
    EStateM Stop β ℤ :=
  match b.dev pageid with
  | none => return -1
  | some dev => do
    if (← transfer (pageOffset pageid) dev) ≠ 0 then return -1
    return 0

/-- `sswap_store`. -/
def sswapStore (b : StaticBuild) (rdmaWrite : ℕ → ℕ → EStateM Stop β ℤ) (pageid : ℕ) :
    EStateM Stop β ℤ := b.transferPage rdmaWrite pageid

/-- `sswap_load`. -/
def sswapLoad (b : StaticBuild) (rdmaReadSync : ℕ → ℕ → EStateM Stop β ℤ) (pageid : ℕ) :
    EStateM Stop β ℤ := b.transferPage rdmaReadSync pageid

/-- The number of pageids that are not refused. -/
def limit (b : StaticBuild) : ℕ := if b = .useswap then 0 else remoteBufSize >>> pageShift

/-- The offset and the node that a page is transferred to. -/
def place (b : StaticBuild) (pageid : ℕ) : ℕ × ℕ := (pageOffset pageid, (b.dev pageid).getD 0)

theorem dev_eq_none {b : StaticBuild} {p : ℕ} : b.dev p = none ↔ b = .useswap := by
  cases b <;> simp [dev]

theorem dev_lt {b : StaticBuild} {p dev : ℕ} (h : b.dev p = some dev) : dev < maxRemoteNodes := by
  cases b with
  | useswap => cases h
  | usedram =>
    cases h
    decide
  | fineGrained =>
    simp only [StaticBuild.dev, scheduleNode, Option.some.injEq] at h
    rw [← h]
    split <;> decide
  | coarseGrained =>
    simp only [StaticBuild.dev, Option.some.injEq] at h
    rw [← h]
    split <;> decide

end StaticBuild

/-- A page offset that does not wrap around. -/
theorem pageOffset_eq {p : ℕ} (h : p < 2 ^ 52) : pageOffset p = p * pageSize := by
  rw [pageOffset, pageShift_eq, Nat.shiftLeft_eq, u64_of_lt (by omega), pageSize_eq]

theorem pageOffset_lt_iff {p : ℕ} (h : p < 2 ^ 52) :
    pageOffset p < remoteBufSize ↔ p < remoteBufSize >>> pageShift := by
  rw [pageOffset_eq h, show remoteBufSize >>> pageShift = 2097152 from rfl]
  simp only [pageSize_eq, remoteBufSize_eq]
  omega

theorem pageOffset_inj {p q : ℕ} (hp : p < 2 ^ 52) (hq : q < 2 ^ 52)
    (h : pageOffset p = pageOffset q) : p = q := by
  rw [pageOffset_eq hp, pageOffset_eq hq] at h
  exact Nat.eq_of_mul_eq_mul_right (by decide) h

variable {α β ι : Type}

/-- One call of a build without the scheduler. -/
def Backend.staticCall (B : Backend α β) (b : StaticBuild) (st : β) (c : Call α) : Reply α × β :=
  let st := B.setPage st c.page c.pageIn
  match c.op with
  | .store =>
    let r := b.sswapStore (B.rdmaWrite c.outcome c.page) c.pageid st
    (⟨resultCode r, none⟩, finalState r)
  | .load =>
    let r := b.sswapLoad (B.rdmaReadSync c.outcome c.page) c.pageid st
    (⟨resultCode r, some (B.pages (finalState r) c.page).contents⟩, finalState r)

/-! ## A flat swap device -/

/-- A device with one cell for each of `limit` pageids: it refuses other pageids, and
moves the page of a call unless the transfer fails. -/
def Flat.call (limit : ℕ) (mem : ℕ → α) (c : Call α) : Reply α × (ℕ → α) :=
  match c.op with
  | .store =>
    if c.pageid < limit then
      (⟨.ok 0, none⟩, if c.outcome.Moves then Function.update mem c.pageid c.contents else mem)
    else (⟨.ok (-1), none⟩, mem)
  | .load =>
    if c.pageid < limit then
      (⟨.ok (if c.outcome.dma = none then -1 else 0),
        some (if c.outcome.Moves then mem c.pageid else c.contents)⟩, mem)
    else (⟨.ok (-1), some c.contents⟩, mem)

/-- The backend refuses offsets beyond `REMOTE_BUF_SIZE`. -/
structure Backend.Refuses (B : Backend α β) : Prop where
  write : ∀ o page dev b {roffset}, remoteBufSize ≤ roffset → B.rdmaWrite o page roffset dev b = .ok (-1) b
  read : ∀ o page dev b {roffset}, remoteBufSize ≤ roffset → B.rdmaReadSync o page roffset dev b = .ok (-1) b

theorem Rdma.backend_refuses (host : Host) (fuel : ℕ) :
    (Rdma.backend host fuel : Backend α (Rdma.Client α)).Refuses where
  write o page dev b roffset h := by
    simp only [backend, sswapRdmaWrite, ge_iff_le, h, if_true, StateError.pure_apply]
  read o page dev b roffset h := by
    simp only [backend, sswapRdmaReadSync, ge_iff_le, h, if_true, StateError.pure_apply]

theorem Dram.backend_refuses (host : Host) :
    (Dram.backend host : Backend α (Dram.Client α)).Refuses where
  write o page dev b roffset h := by
    simp only [backend, sswapRdmaWrite, ge_iff_le, h, if_true, StateError.pure_apply]
  read o page dev b roffset h := by
    simp only [backend, sswapRdmaReadSync, ge_iff_le, h, if_true, StateError.pure_apply]

section Flat

variable [DecidableEq ι] {B : Backend α β} {ok : FrontswapOp → Outcome → Prop} {addr : ℕ × ℕ → ι}
  {C : B.Cells ok addr} {b : StaticBuild} {st : β} {mem : ℕ → α} {c : Call α}

/-- A call that is refused. -/
theorem StaticBuild.transferPage_refused {transfer : ℕ → ℕ → EStateM Stop β ℤ} {p : ℕ}
    (hrefuse : ∀ dev, remoteBufSize ≤ pageOffset p → transfer (pageOffset p) dev st = .ok (-1) st)
    (hp : p < 2 ^ 52) (hlim : ¬ p < b.limit) : b.transferPage transfer p st = .ok (-1) st := by
  cases hdev : b.dev p with
  | none => simp only [transferPage, hdev, StateError.pure_apply]
  | some dev =>
    have hb : b ≠ .useswap := fun hb => by simp [dev_eq_none.mpr hb] at hdev
    rw [limit, if_neg hb, ← pageOffset_lt_iff hp, not_lt] at hlim
    simp [transferPage, hdev, hrefuse dev hlim]

/-- A call that is not refused makes its transfer. -/
theorem StaticBuild.transferPage_made {transfer : ℕ → ℕ → EStateM Stop β ℤ} {p : ℕ} {ret : ℤ} {st' : β}
    (hlim : p < b.limit) (hmade : transfer (b.place p).1 (b.place p).2 st = .ok ret st') :
    b.transferPage transfer p st = .ok (if ret ≠ 0 then -1 else 0) st' := by
  cases hdev : b.dev p with
  | none =>
    rw [limit, if_pos (dev_eq_none.mp hdev)] at hlim
    exact absurd hlim (Nat.not_lt_zero _)
  | some dev =>
    rw [place, hdev] at hmade
    simp only [Option.getD_some] at hmade
    by_cases hret : ret = 0
    · simp [transferPage, hdev, hmade, hret]
    · simp [transferPage, hdev, hmade, hret]

theorem StaticBuild.limit_le (b : StaticBuild) : b.limit ≤ remoteBufSize >>> pageShift := by
  rw [limit]
  split
  · exact Nat.zero_le _
  · exact le_rfl

theorem StaticBuild.lt_of_lt_limit {p : ℕ} (h : p < b.limit) : p < 2 ^ 52 :=
  (h.trans_le b.limit_le).trans (by decide)

/-- The place of a page is one that the backend has. -/
theorem StaticBuild.place_lt {p : ℕ} (h : p < b.limit) :
    (b.place p).1 < remoteBufSize ∧ (b.place p).2 < maxRemoteNodes := by
  refine ⟨(pageOffset_lt_iff (lt_of_lt_limit h)).mpr (h.trans_le b.limit_le), ?_⟩
  cases hdev : b.dev p with
  | none => simp [place, hdev, maxRemoteNodes]
  | some dev =>
    simp only [place, hdev, Option.getD_some]
    exact dev_lt hdev

/-- The cells of the backend hold what the device holds. -/
structure Flat.Rel (C : B.Cells ok addr) (b : StaticBuild) (st : β) (mem : ℕ → α) : Prop where
  ready : C.ready st
  cells : ∀ p < b.limit, C.cell st (addr (b.place p)) = mem p

theorem Flat.Rel.store (haddr : ∀ x y, addr x = addr y → x.1 = y.1) (h : Rel C b st mem)
    (hop : c.op = .store) (hok : ok .store c.outcome) (hlim : c.pageid < b.limit) :
    (B.staticCall b st c).1 = (Flat.call b.limit mem c).1 ∧
      Rel C b (B.staticCall b st c).2 (Flat.call b.limit mem c).2 := by
  have hpage := C.setPage_page st c.page c.pageIn
  obtain ⟨hoffset, hdev⟩ := StaticBuild.place_lt hlim
  obtain ⟨st', hwrite, hready, hcell⟩ := C.write hok (C.setPage_ready h.ready)
    hoffset hdev (congrArg Page.swapCache hpage)
  rw [hpage, C.setPage_cell] at hcell
  simp only [Backend.staticCall, hop, StaticBuild.sswapStore,
    StaticBuild.transferPage_made hlim hwrite, Flat.call, if_pos hlim]
  refine ⟨rfl, hready, fun p hp => ?_⟩
  show C.cell st' (addr (b.place p)) = _
  rw [hcell]
  split
  · -- of the pages of the device, only that of the call is at the address written
    have hinj : addr (b.place p) = addr (b.place c.pageid) ↔ p = c.pageid :=
      ⟨fun heq => pageOffset_inj (StaticBuild.lt_of_lt_limit hp) (StaticBuild.lt_of_lt_limit hlim)
        (haddr _ _ heq), fun heq => by rw [heq]⟩
    rw [Function.update_apply, Function.update_apply]
    simp only [hinj, h.cells p hp]
    rfl
  · exact h.cells p hp

theorem Flat.Rel.load (h : Rel C b st mem) (hop : c.op = .load) (hok : ok .load c.outcome)
    (hlim : c.pageid < b.limit) :
    (B.staticCall b st c).1 = (Flat.call b.limit mem c).1 ∧
      Rel C b (B.staticCall b st c).2 (Flat.call b.limit mem c).2 := by
  have hpage := C.setPage_page st c.page c.pageIn
  have hread : Rdma.ToBeRead (B.pages (B.setPage st c.page c.pageIn) c.page) := by
    rw [hpage]
    exact ⟨rfl, rfl, by simp [Call.pageIn, hop]⟩
  obtain ⟨hoffset, hdev⟩ := StaticBuild.place_lt hlim
  obtain ⟨ret, st', hrun, hret, hready, hcell, hcontents⟩ :=
    C.read hok (C.setPage_ready h.ready) hoffset hdev hread
  rw [C.setPage_cell] at hcell
  have hcode : (if ret ≠ 0 then (-1 : ℤ) else 0) = if c.outcome.dma = none then -1 else 0 :=
    if_congr hret rfl rfl
  rw [hpage, C.setPage_cell, h.cells _ hlim] at hcontents
  simp only [Backend.staticCall, hop, StaticBuild.sswapLoad, StaticBuild.transferPage_made hlim hrun,
    Flat.call, if_pos hlim, resultCode, finalState, hcode, hcontents]
  exact ⟨rfl, hready, fun p hp => hcell ▸ h.cells p hp⟩

/-- A build without the scheduler answers a call as the device does. -/
theorem Flat.Rel.call (hB : B.Refuses) (haddr : ∀ x y, addr x = addr y → x.1 = y.1)
    (h : Rel C b st mem) (hp : c.pageid < 2 ^ 52) (hok : ok c.op c.outcome) :
    (B.staticCall b st c).1 = (Flat.call b.limit mem c).1 ∧
      Rel C b (B.staticCall b st c).2 (Flat.call b.limit mem c).2 := by
  by_cases hlim : c.pageid < b.limit
  · cases hop : c.op with
    | store => exact h.store haddr hop (hop ▸ hok) hlim
    | load => exact h.load hop (hop ▸ hok) hlim
  · have hrel : Rel C b (B.setPage st c.page c.pageIn) mem :=
      ⟨C.setPage_ready h.ready, fun p hp => by rw [C.setPage_cell, h.cells p hp]⟩
    cases hop : c.op with
    | store =>
      have hrefused := StaticBuild.transferPage_refused (b := b)
        (fun dev => hB.write c.outcome c.page dev (B.setPage st c.page c.pageIn)) hp hlim
      simp only [Backend.staticCall, hop, StaticBuild.sswapStore, hrefused, Flat.call, if_neg hlim]
      exact ⟨rfl, hrel⟩
    | load =>
      have hrefused := StaticBuild.transferPage_refused (b := b)
        (fun dev => hB.read c.outcome c.page dev (B.setPage st c.page c.pageIn)) hp hlim
      simp only [Backend.staticCall, hop, StaticBuild.sswapLoad, hrefused, Flat.call, if_neg hlim,
        resultCode, finalState, C.setPage_page]
      exact ⟨rfl, hrel⟩

end Flat

/-! ## Runs -/

variable {zero : α} {before calls : List (Call α)} {c : Call α} {b : StaticBuild} {fuel p : ℕ}

theorem rdma_static_replies (b : StaticBuild) (host : Host) (zero : α) (pages : ℕ → Page α)
    (hword : ∀ c ∈ calls, c.pageid < 2 ^ 52)
    (hok : ∀ c ∈ calls, c.outcome.Returns c.op ∧ c.outcome.delay < fuel) :
    Machine.replies ((Rdma.backend host fuel).staticCall b) (.zeroed zero pages) calls =
      Machine.replies (Flat.call b.limit) (fun _ => zero) calls := by
  apply Machine.replies_eq (R := Flat.Rel (Rdma.cells host fuel) b)
    (P := fun c => c.pageid < 2 ^ 52 ∧ c.outcome.Returns c.op ∧ c.outcome.delay < fuel)
  · intro st mem c hc h
    exact h.call (Rdma.backend_refuses host fuel) (fun x y hxy => congrArg Prod.fst hxy) hc.1 hc.2
  · exact fun c hc => ⟨hword c hc, hok c hc⟩
  · exact ⟨fun _ _ => rfl, fun _ _ => rfl⟩

theorem dram_static_replies (b : StaticBuild) (host : Host) (zero : α) (pages : ℕ → Page α)
    (hword : ∀ c ∈ calls, c.pageid < 2 ^ 52) (hok : ∀ c ∈ calls, c.outcome.Succeeds) :
    Machine.replies ((Dram.backend host).staticCall b) (.zeroed zero pages) calls =
      Machine.replies (Flat.call b.limit) (fun _ => zero) calls := by
  apply Machine.replies_eq (R := Flat.Rel (Dram.cells host) b)
    (P := fun c => c.pageid < 2 ^ 52 ∧ c.outcome.Succeeds)
  · intro st mem c hc h
    exact h.call (Dram.backend_refuses host) (fun _ _ hxy => hxy) hc.1 hc.2
  · exact fun c hc => ⟨hword c hc, hok c hc⟩
  · exact ⟨trivial, fun _ _ => rfl⟩

/-- What a run leaves in the cells of the device. -/
theorem flat_answered (zero : α) (calls : List (Call α)) :
    Machine.answered (Flat.call (remoteBufSize >>> pageShift)) (fun _ => zero) calls =
      CellStore.memory zero id (stores calls) := by
  induction calls using List.reverseRecOn with
  | nil => rfl
  | append_singleton calls c ih =>
    rw [Machine.answered, Machine.after_concat]
    change (Flat.call _ (Machine.answered _ _ calls) c).2 = _
    rw [ih]
    by_cases hstore : (c.op = .store ∧ c.pageid < remoteBufSize >>> pageShift) ∧ c.outcome.Moves
    · obtain ⟨⟨hop, hr⟩, hmoves⟩ := hstore
      rw [stores_store hop hr hmoves, CellStore.memory_concat]
      simp only [Flat.call, hop, if_pos hr, if_pos hmoves, id_eq]
    · rw [stores_other hstore]
      cases hop : c.op with
      | load =>
        simp only [Flat.call, hop]
        split <;> rfl
      | store =>
        simp only [Flat.call, hop]
        split
        · next hr => rw [if_neg fun hmoves => hstore ⟨⟨hop, hr⟩, hmoves⟩]
        · rfl

/-- A build without the scheduler, over either backend, is a device with a cell for
each pageid. -/
theorem static_flat (b : StaticBuild) (host : Host) (zero : α) (pages : ℕ → Page α)
    (calls : List (Call α)) (hword : ∀ c ∈ calls, c.pageid < 2 ^ 52)
    (hok : ∀ c ∈ calls, c.outcome.Returns c.op) :
    ∃ fuel₀, ∀ fuel, fuel₀ ≤ fuel →
      Machine.replies ((Rdma.backend host fuel).staticCall b) (.zeroed zero pages) calls =
        Machine.replies (Flat.call b.limit) (fun _ => zero) calls ∧
      ((∀ c ∈ calls, c.outcome.Succeeds) →
        Machine.replies ((Dram.backend host).staticCall b) (.zeroed zero pages) calls =
          Machine.replies (Flat.call b.limit) (fun _ => zero) calls) := by
  obtain ⟨fuel₀, hdelay⟩ := exists_fuel calls
  refine ⟨fuel₀, fun fuel hfuel => ⟨?_, dram_static_replies b host zero pages hword⟩⟩
  apply rdma_static_replies b host zero pages hword
  intro c hc
  exact ⟨hok c hc, (hdelay c hc).trans_le hfuel⟩

theorem static_flat_once : ∃ fuel₀, ∀ fuel, fuel₀ ≤ fuel →
    (Machine.replies ((Rdma.backend ⟨6, true⟩ fuel).staticCall .coarseGrained)
      (.zeroed 0 fun _ => ⟨0, false, false, false⟩) storedOnce)[1]? = some ⟨.ok 0, some 1⟩ := by
  have hall : ∀ c ∈ storedOnce, c.pageid < 2 ^ 52 ∧ c.outcome.Returns c.op := by
    intro c hc
    simp only [storedOnce, List.mem_cons, List.not_mem_nil, or_false] at hc
    rcases hc with rfl | rfl
    all_goals exact ⟨by decide, prompt_succeeds.returns _⟩
  obtain ⟨fuel₀, h⟩ := static_flat .coarseGrained ⟨6, true⟩ 0 (fun _ => ⟨0, false, false, false⟩)
    storedOnce (fun c hc => (hall c hc).1) fun c hc => (hall c hc).2
  refine ⟨fuel₀, fun fuel hfuel => ?_⟩
  rw [(h fuel hfuel).1]
  rfl

end Multiswap
