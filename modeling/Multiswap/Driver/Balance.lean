import Mathlib.Tactic.Abel
import Multiswap.Driver.Defs

/-!
# What loading and unloading leave behind

Queue objects are always released, each once. What is never released by an
unloading are the queue array and the device record of every server, and what a
failed loading leaves behind is the request cache and everything but the queue
objects of the servers it got to.
-/

namespace Multiswap.Driver

open Ledger (settle Frees Balanced release rest acquire_apply)
open StateError (bind_apply)

variable {cfg : Config} {k : Answers} {s : Globals} {H : Multiset Resource} {j i n : ℕ}

theorem release_frees (r : Resource) : Frees Globals.log rest {r} (release r : M PUnit) :=
  Ledger.release_frees r

/-- The objects of an initialised queue. -/
def queueObjects (j i : ℕ) : Multiset Resource := {.qp j i} + ({.cq j i} + {.cmId j i})

/-- What the first `m` of a family hold together. -/
def upTo (F : ℕ → Multiset Resource) (m : ℕ) : Multiset Resource := ((List.range m).map F).sum

@[simp] theorem upTo_zero (F : ℕ → Multiset Resource) : upTo F 0 = 0 := rfl

theorem upTo_succ (F : ℕ → Multiset Resource) (m : ℕ) : upTo F (m + 1) = F m + upTo F m := by
  rw [upTo, List.range_succ, List.map_append, List.sum_append, add_comm]
  simp [upTo]

theorem upTo_add (F G : ℕ → Multiset Resource) (m : ℕ) :
    upTo (fun j => F j + G j) m = upTo F m + upTo G m := List.sum_map_add

/-- The objects of the first `n` queues of a server. -/
def queuesHeld (n j : ℕ) : Multiset Resource := upTo (queueObjects j) n

/-- The device record of a server after the initialisation of `n` queues. -/
def deviceOf (n j : ℕ) : Multiset Resource := if n = 0 then 0 else {.rdev j, .pd j}

@[simp] theorem queuesHeld_zero (j : ℕ) : queuesHeld 0 j = 0 := rfl

theorem queuesHeld_succ (n j : ℕ) : queuesHeld (n + 1) j = queueObjects j n + queuesHeld n j :=
  upTo_succ _ n

theorem stopandfreeQueue_frees (j i : ℕ) :
    Frees Globals.log rest (queueObjects j i) (stopandfreeQueue j i) :=
  (release_frees _).bind ((release_frees _).bind (release_frees _))

theorem freeQueuesBelow_frees (j i : ℕ) :
    Frees Globals.log rest (queuesHeld i j) (freeQueuesBelow j i) := by
  induction i with
  | zero => exact .pure
  | succ i ih =>
    rw [queuesHeld_succ]
    exact (stopandfreeQueue_frees j i).bind ih

theorem stopandfreeQueues_frees (cfg : Config) (j : ℕ) : Frees Globals.log rest
    (queuesHeld cfg.numqueuesPerserver j) (stopandfreeQueues cfg j) :=
  .forM (stopandfreeQueue_frees j) _

/-- A state in which only the record of one server and the log have changed. -/
def Globals.after (s : Globals) (j : ℕ) (rdev : Bool) (log : List (Ledger.Entry Resource)) : Globals :=
  { s with rdev := Function.update s.rdev j rdev, log := log }

theorem Globals.after_self (s : Globals) (j : ℕ) : s.after j (s.rdev j) s.log = s := by
  rw [Globals.after, Function.update_eq_self]

theorem Globals.after_after (s : Globals) (j : ℕ) (b b' : Bool) (l l' : List (Ledger.Entry Resource)) :
    (s.after j b l).after j b' l' = s.after j b' l' := by
  simp [Globals.after]

theorem initQueue_fail (h : k.initQueue j i ≠ 0) (s : Globals) :
    initQueue k j i s = .ok (k.initQueue j i) s := by
  simp [initQueue, h]

theorem initQueue_ok (h : k.initQueue j i = 0) (hrdev : s.rdev j = decide (0 < i))
    (hs : settle s.log = some (deviceOf i j + H)) :
    ∃ l, initQueue k j i s = .ok 0 (s.after j true l) ∧
      settle l = some (deviceOf (i + 1) j + (queueObjects j i + H)) := by
  have hcm := Ledger.settle_acquire hs (.cmId j i)
  cases i with
  | zero =>
    have hdev := Ledger.settle_acquire (Ledger.settle_acquire hcm (.rdev j)) (.pd j)
    have hqp := Ledger.settle_acquire (Ledger.settle_acquire hdev (.cq j 0)) (.qp j 0)
    refine ⟨_, ?_, hqp.trans (congrArg some ?_)⟩
    · simp [initQueue, h, acquire_apply, hrdev, Globals.after]
    · ext r
      simp [deviceOf, queueObjects, Multiset.count_cons]
      omega
  | succ i =>
    have hqp := Ledger.settle_acquire (Ledger.settle_acquire hcm (.cq j (i + 1))) (.qp j (i + 1))
    refine ⟨_, ?_, hqp.trans (congrArg some ?_)⟩
    · simp [initQueue, h, acquire_apply, hrdev, Globals.after]
    · ext r
      simp [deviceOf, queueObjects, Multiset.count_cons]
      omega

/-- How `sswap_rdma_init_queues` ends when it goes on from queue `i`. -/
theorem initQueues_cases (k : Answers) (fuel : ℕ) (hrdev : s.rdev j = decide (0 < i))
    (hs : settle s.log = some (deviceOf i j + (queuesHeld i j + H))) :
    ∃ ret b l, initQueues k j fuel i s = .ok ret (s.after j b l) ∧
      ((ret = 0 ∧ b = decide (0 < i + fuel) ∧
          settle l = some (deviceOf (i + fuel) j + (queuesHeld (i + fuel) j + H))) ∨
        (ret ≠ 0 ∧ ∃ q < i + fuel, settle l = some (deviceOf q j + H))) := by
  induction fuel generalizing i s with
  | zero => exact ⟨0, s.rdev j, s.log, by rw [Globals.after_self]; rfl, .inl ⟨rfl, hrdev, hs⟩⟩
  | succ fuel ih =>
    by_cases hret : k.initQueue j i = 0
    · obtain ⟨l, hinit, hl⟩ := initQueue_ok hret hrdev hs
      have hheld : settle (s.after j true l).log =
          some (deviceOf (i + 1) j + (queuesHeld (i + 1) j + H)) := by
        rw [queuesHeld_succ, add_assoc]
        exact hl
      have hset : (s.after j true l).rdev j = decide (0 < i + 1) := by simp [Globals.after]
      obtain ⟨ret, b, l', hrun, hend⟩ := ih hset hheld
      rw [Globals.after_after] at hrun
      rw [Nat.add_right_comm i 1 fuel] at hend
      refine ⟨ret, b, l', ?_, hend⟩
      rw [initQueues, bind_apply, hinit]
      exact hrun
    · rw [add_left_comm] at hs
      obtain ⟨s', hfree, hheld, hrest⟩ := freeQueuesBelow_frees j i s _ hs
      have hs' : s' = s.after j (s.rdev j) s'.log := by
        rw [Globals.after, Function.update_eq_self]
        exact congrArg (fun t : Globals => { t with log := s'.log }) hrest
      refine ⟨_, s.rdev j, s'.log, ?_, .inr ⟨hret, i, by omega, hheld⟩⟩
      rw [initQueues, bind_apply, initQueue_fail hret]
      simp only [ne_eq, hret, not_false_eq_true, if_true, bind_apply, hfree]
      rw [← hs']
      rfl

/-- What an unloading never releases of a server. -/
def unreleased (cfg : Config) (j : ℕ) : Multiset Resource :=
  {.queues j} + deviceOf cfg.numqueuesPerserver j

/-- What `sswap_rdma_create_ctrl` acquires if it succeeds. -/
def ctrlHeld (cfg : Config) (j : ℕ) : Multiset Resource :=
  queuesHeld cfg.numqueuesPerserver j + ({.ctrl j} + unreleased cfg j)

/-- What `sswap_rdma_create_ctrl` may leave behind if it fails. -/
def ctrlLeft (j : ℕ) : Multiset Resource := {.ctrl j, .queues j, .rdev j, .pd j}

theorem deviceOf_le (n j : ℕ) : deviceOf n j ≤ {.rdev j, .pd j} := by
  rw [deviceOf]
  split
  · exact Multiset.zero_le _
  · exact le_rfl

theorem ctrlLeft_of_device {n : ℕ} :
    deviceOf n j + ({.ctrl j, .queues j} : Multiset Resource) ≤ ctrlLeft j := by
  refine (add_le_add_left (deviceOf_le n j) _).trans (le_of_eq ?_)
  ext r
  simp [ctrlLeft, Multiset.count_cons, Multiset.count_singleton]
  omega

/-- How `sswap_rdma_create_ctrl` ends. -/
theorem createCtrl_cases (cfg : Config) (k : Answers) (serverip clientip : List Char)
    (hrdev : s.rdev j = false) (hs : settle s.log = some H) :
    ∃ ret b l, createCtrl cfg k j serverip clientip s = .ok ret (s.after j b l) ∧
      ((ret = 0 ∧ b = decide (0 < cfg.numqueuesPerserver) ∧
          settle l = some (ctrlHeld cfg j + H)) ∨
        (ret ≠ 0 ∧ ∃ L ≤ ctrlLeft j, settle l = some (L + H))) := by
  have hctrl : settle (s.log ++ [.acquire (.ctrl j)]) = some ({.ctrl j} + H) :=
    Ledger.settle_acquire hs (.ctrl j)
  have hqueues : settle (s.log ++ [.acquire (.ctrl j)] ++ [.acquire (.queues j)]) =
      some ({.ctrl j, .queues j} + H) := by
    rw [Ledger.settle_acquire hctrl]
    simp [Multiset.cons_swap]
  have hleft := ctrlLeft_of_device (j := j) (n := 0)
  by_cases hc : k.ctrl j = false
  · refine ⟨-Rdma.enomem, s.rdev j, s.log, ?_, .inr ⟨by decide, 0, Multiset.zero_le _, by simpa using hs⟩⟩
    simp [createCtrl, hc, Globals.after_self]
  by_cases hq : k.queues j = false
  · refine ⟨-Rdma.enomem, s.rdev j, _, ?_, .inr ⟨by decide, _, ?_, hctrl⟩⟩
    · simp [createCtrl, hc, hq, acquire_apply, Globals.after]
    · exact (Multiset.singleton_le.mpr (by simp)).trans hleft
  by_cases hserver : parseIpaddr k serverip ≠ 0
  · refine ⟨-einval, s.rdev j, _, ?_, .inr ⟨by decide, _, hleft, hqueues⟩⟩
    simp [createCtrl, hc, hq, hserver, acquire_apply, Globals.after]
  by_cases hclient : parseIpaddr k clientip ≠ 0
  · refine ⟨-einval, s.rdev j, _, ?_, .inr ⟨by decide, _, hleft, hqueues⟩⟩
    simp [createCtrl, hc, hq, hserver, hclient, acquire_apply, Globals.after]
  have hstart : settle ({ s with log := s.log ++ [.acquire (.ctrl j)] ++
      [.acquire (.queues j)] } : Globals).log =
      some (deviceOf 0 j + (queuesHeld 0 j + ({.ctrl j, .queues j} + H))) := by
    simpa [deviceOf] using hqueues
  obtain ⟨ret, b, l, hrun, hend⟩ :=
    initQueues_cases k cfg.numqueuesPerserver (by simpa using hrdev) hstart
  refine ⟨ret, b, l, ?_, ?_⟩
  · simpa [createCtrl, hc, hq, hserver, hclient, acquire_apply, Globals.after] using hrun
  · rw [Nat.zero_add] at hend
    obtain ⟨hret, hb, hl⟩ | ⟨hret, q, -, hl⟩ := hend
    · refine .inl ⟨hret, hb, hl.trans (congrArg some ?_)⟩
      ext r
      simp [ctrlHeld, unreleased, Multiset.count_cons]
      omega
    · rw [← add_assoc] at hl
      exact .inr ⟨hret, _, ctrlLeft_of_device, hl⟩

/-- What a server in `gctrl_list` holds beside its queue objects. -/
def serverLeft (cfg : Config) (j : ℕ) : Multiset Resource :=
  ({.ctrl j} + {.entry j}) + unreleased cfg j

/-- The first `m` servers are in `gctrl_list`, with their device records. -/
structure Built (cfg : Config) (m : ℕ) (s : Globals) : Prop where
  list : s.gctrlList = List.range m
  rdev : ∀ j < m, s.rdev j = decide (0 < cfg.numqueuesPerserver)
  fresh : ∀ j, m ≤ j → s.rdev j = false

theorem Built.next {b : Bool} (h : Built cfg j s) (hb : b = decide (0 < cfg.numqueuesPerserver))
    (log : List (Ledger.Entry Resource)) :
    Built cfg (j + 1) { s.after j b log with gctrlList := s.gctrlList ++ [j] } where
  list := by rw [h.list, List.range_succ]
  rdev i hi := by
    by_cases hij : i = j
    · simp [Globals.after, hij, hb]
    · simpa [Globals.after, hij] using h.rdev i (by omega)
  fresh i hi := by
    have hij : i ≠ j := by omega
    simpa [Globals.after, hij] using h.fresh i (by omega)

/-- What the first `m` servers hold together with their queue objects. -/
def serversHeld (cfg : Config) (m : ℕ) : Multiset Resource :=
  upTo (queuesHeld cfg.numqueuesPerserver) m + upTo (serverLeft cfg) m

theorem serversHeld_succ (cfg : Config) (m : ℕ) :
    serversHeld cfg (m + 1) = ctrlHeld cfg m + {.entry m} + serversHeld cfg m := by
  rw [serversHeld, upTo_succ, upTo_succ, serversHeld, ctrlHeld, serverLeft]
  abel

/-- How `sswap_rdma_create_gctrl_list` ends when it goes on from server `j`. -/
theorem createGctrlList_cases (k : Answers) (fuel : ℕ) (hb : Built cfg j s)
    (hs : settle s.log = some (serversHeld cfg j + H)) :
    ∃ ret s', createGctrlList cfg k fuel j s = .ok ret s' ∧ s'.reqCache = s.reqCache ∧
      s'.gctrl = s.gctrl ∧
      ((ret = 0 ∧ Built cfg (j + fuel) s' ∧
          settle s'.log = some (serversHeld cfg (j + fuel) + H)) ∨
        (ret ≠ 0 ∧ ∃ m < j + fuel, s'.gctrlList = List.range m ∧
          ∃ L ≤ {.entry m} + ctrlLeft m, settle s'.log = some (serversHeld cfg m + (L + H)))) := by
  induction fuel generalizing j s with
  | zero => exact ⟨0, s, rfl, rfl, rfl, .inl ⟨rfl, hb, hs⟩⟩
  | succ fuel ih =>
    by_cases he : k.entry j = false
    · refine ⟨-Rdma.enomem, s, by simp [createGctrlList, he], rfl, rfl, .inr ⟨by decide, j, by omega,
        hb.list, 0, Multiset.zero_le _, by simpa using hs⟩⟩
    have hentry := Ledger.settle_acquire hs (.entry j)
    obtain ⟨ret, b, l, hrun, hend⟩ := createCtrl_cases
      (s := { s with log := s.log ++ [.acquire (.entry j)] }) cfg k (strscpy (cfg.serverip j))
      (strscpy cfg.clientip) (hb.fresh j le_rfl) hentry
    obtain ⟨hret, hrdev, hl⟩ | ⟨hret, L, hL, hl⟩ := hend
    · have hheld : settle l = some (serversHeld cfg (j + 1) + H) := by
        rw [hl, serversHeld_succ, ← Multiset.singleton_add]
        exact congrArg some (by abel)
      obtain ⟨ret', s', hrun', hcache, hgctrl, hend'⟩ := ih (hb.next hrdev l) hheld
      rw [Nat.add_right_comm j 1 fuel] at hend'
      refine ⟨ret', s', ?_, hcache, hgctrl, hend'⟩
      rw [← hrun']
      simp [createGctrlList, he, acquire_apply, hrun, hret, Globals.after]
    · refine ⟨-enodev, s.after j b l, ?_, rfl, rfl, .inr ⟨by decide, j, by omega, hb.list,
        {.entry j} + L, add_le_add_right hL _, hl.trans (congrArg some ?_)⟩⟩
      · simp [createGctrlList, he, acquire_apply, hrun, hret, Globals.after]
      · rw [← Multiset.singleton_add]
        abel

/-- `sswap_rdma_recv_multi_remotemr` changes nothing. -/
theorem recvMultiRemotemr_cases (k : Answers) (l : List ℕ) (s : Globals) :
    (∃ ret, recvMultiRemotemr k l s = .ok ret s ∧ (l = [] → ret = 0)) ∨
      (recvMultiRemotemr k l s = .error .nullDeref s ∧ l ≠ []) := by
  induction l with
  | nil => exact .inl ⟨0, rfl, fun _ => rfl⟩
  | cons j js ih =>
    by_cases hrdev : s.rdev j = false
    · exact .inr ⟨by simp [recvMultiRemotemr, hrdev], List.cons_ne_nil _ _⟩
    by_cases hrecv : k.recvRemotemr j ≠ 0
    · exact .inl ⟨-enodev, by simp [recvMultiRemotemr, hrdev, hrecv], nofun⟩
    have hnext : recvMultiRemotemr k (j :: js) s = recvMultiRemotemr k js s := by
      simp [recvMultiRemotemr, hrdev, hrecv]
    rw [hnext]
    obtain ⟨ret, hrun, -⟩ | ⟨hrun, -⟩ := ih
    · exact .inl ⟨ret, hrun, nofun⟩
    · exact .inr ⟨hrun, List.cons_ne_nil _ _⟩

theorem freeServers_frees (cfg : Config) (m : ℕ) : Frees Globals.log rest
    (upTo (queuesHeld cfg.numqueuesPerserver) m)
    ((List.range m).forM (stopandfreeQueues cfg)) :=
  .forM (stopandfreeQueues_frees cfg) _

/-- Every failing exit releases the queue objects and the registration. -/
theorem initModuleFail_ok {m : ℕ} (hlist : s.gctrlList = List.range m)
    (hs : settle s.log = some (serversHeld cfg m + ({.client} + H))) :
    ∃ s', initModuleFail cfg s = .ok (-enodev) s' ∧
      settle s'.log = some (upTo (serverLeft cfg) m + H) := by
  rw [serversHeld, add_assoc, add_left_comm (upTo (serverLeft cfg) m)] at hs
  obtain ⟨s₁, hfree, hs₁, -⟩ := freeServers_frees cfg m s _ hs
  obtain ⟨s₂, hclient, hs₂, -⟩ := release_frees .client s₁ _ hs₁
  refine ⟨s₂, ?_, hs₂⟩
  simp only [initModuleFail, bind_apply, StateError.get_apply, hlist, hfree, hclient]
  rfl

/-- How the filling of `gctrl` ends. -/
theorem fillGctrl_cases (k : Answers) (hnull : s.gctrl = false) (hs : settle s.log = some H) :
    (∃ l, fillGctrl k s = .ok ⟨⟩ { s with gctrl := k.gctrl, log := l } ∧
        settle l = some ((if k.gctrl then {.gctrl} else 0) + H)) ∨
      (fillGctrl k s = .error .nullDeref s ∧ s.gctrlList ≠ []) := by
  by_cases hg : k.gctrl = true
  · refine .inl ⟨_, ?_, (Ledger.settle_acquire hs .gctrl).trans (by simp [hg])⟩
    simp [fillGctrl, hg, acquire_apply]
  · by_cases hlist : s.gctrlList = []
    · have hsame : ({ s with gctrl := k.gctrl, log := s.log } : Globals) = s := by
        rw [(Bool.not_eq_true _).mp hg, ← hnull]
      refine .inl ⟨s.log, ?_, by simpa [hg] using hs⟩
      rw [hsame]
      simp [fillGctrl, hg, hlist]
    · exact .inr ⟨by simp [fillGctrl, hg, hlist, hnull], hlist⟩

/-- The state in which `sswap_rdma_init_module` starts with the servers. -/
def Globals.loading : Globals :=
  ⟨true, false, fun _ => false, [], [.acquire .reqCache, .acquire .client]⟩

theorem loading_eq : (⟨true, false, fun _ => false, [], [.acquire .reqCache, .acquire .client]⟩ :
    Globals) = .loading := rfl

theorem loading_held (cfg : Config) :
    settle Globals.loading.log = some (serversHeld cfg 0 + ({.client} + {.reqCache})) := rfl

/-- `sswap_rdma_init_module` has returned an error: the request cache is left, and
so is everything but the queue objects of the first `m` servers. -/
def FailedWith (cfg : Config) (s : Globals) : Prop :=
  ∃ m ≤ cfg.numServer, ∃ L ≤ {.entry m} + ctrlLeft m,
    settle s.log = some (upTo (serverLeft cfg) m + (L + {.reqCache}))

/-- `sswap_rdma_init_module` has returned 0. -/
structure Loaded (cfg : Config) (k : Answers) (s : Globals) : Prop where
  reqCache : s.reqCache = true
  gctrl : s.gctrl = k.gctrl
  list : s.gctrlList = List.range cfg.numServer
  held : settle s.log = some (serversHeld cfg cfg.numServer +
    ({.client} + ((if k.gctrl then {.gctrl} else 0) + {.reqCache})))

/-- `sswap_rdma_init_module` by the ends of its three parts. -/
theorem initModule_apply {ret : ℤ} (hcache : k.reqCache = true)
    (hrun : createGctrlList cfg k cfg.numServer 0 .loading = .ok ret s) :
    initModule cfg k .initial =
      if ret ≠ 0 then initModuleFail cfg s
      else match recvMultiRemotemr k s.gctrlList s with
        | .error e s => .error e s
        | .ok ret s =>
          if ret ≠ 0 then initModuleFail cfg s
          else match fillGctrl k s with
            | .error e s => .error e s
            | .ok _ s => .ok 0 s := by
  simp only [initModule, hcache, Bool.not_true, Bool.false_eq_true, if_false, bind_apply,
    acquire_apply, logged_log, logged_setLog, StateError.modify_apply, Globals.initial,
    List.nil_append, List.cons_append, loading_eq, hrun]
  by_cases hret : ret = 0
  · simp only [hret, ne_eq, not_true_eq_false, if_false, bind_apply, StateError.get_apply]
    cases recvMultiRemotemr k s.gctrlList s with
    | error e s => rfl
    | ok ret s =>
      by_cases hrecv : ret = 0
      · simp only [hrecv, not_true_eq_false, if_false, bind_apply, StateError.pure_apply]
        cases fillGctrl k s <;> rfl
      · simp [hrecv]
  · simp [hret]

/-- How `sswap_rdma_init_module` ends once the request cache exists. -/
theorem initModule_cases (cfg : Config) (k : Answers) (hcache : k.reqCache = true) :
    (∃ s, initModule cfg k .initial = .ok 0 s ∧ Loaded cfg k s) ∨
      (∃ s, initModule cfg k .initial = .ok (-enodev) s ∧ 0 < cfg.numServer ∧ FailedWith cfg s) ∨
      (∃ s, initModule cfg k .initial = .error .nullDeref s ∧ 0 < cfg.numServer) := by
  have hbuilt : Built cfg 0 .loading := ⟨rfl, nofun, fun _ _ => rfl⟩
  obtain ⟨ret, s, hrun, hrc, hg, hend⟩ :=
    createGctrlList_cases k cfg.numServer hbuilt (loading_held cfg)
  rw [Nat.zero_add] at hend
  obtain ⟨rfl, hb, hs⟩ | ⟨hret, m, hm, hlist, L, hL, hs⟩ := hend
  · have hpos : s.gctrlList ≠ [] → 0 < cfg.numServer := fun hne => by
      rw [hb.list, ne_eq, List.range_eq_nil] at hne
      omega
    obtain ⟨ret, hrecv, hzero⟩ | ⟨hrecv, hne⟩ := recvMultiRemotemr_cases k s.gctrlList s
    · by_cases hret : ret = 0
      · obtain ⟨l, hfill, hl⟩ | ⟨hfill, hne⟩ := fillGctrl_cases k hg hs
        · refine .inl ⟨{ s with gctrl := k.gctrl, log := l }, ?_, hrc, rfl, hb.list, hl.trans ?_⟩
          · simp [initModule_apply hcache hrun, hrecv, hret, hfill]
          · exact congrArg some (by abel)
        · refine .inr (.inr ⟨s, ?_, hpos hne⟩)
          simp [initModule_apply hcache hrun, hrecv, hret, hfill]
      · obtain ⟨s', hfail, hs'⟩ := initModuleFail_ok hb.list hs
        refine .inr (.inl ⟨s', ?_, hpos (mt hzero hret), _, le_rfl, 0, Multiset.zero_le _, ?_⟩)
        · simp [initModule_apply hcache hrun, hrecv, hret, hfail]
        · simpa using hs'
    · refine .inr (.inr ⟨s, ?_, hpos hne⟩)
      simp [initModule_apply hcache hrun, hrecv]
  · rw [add_left_comm L] at hs
    obtain ⟨s', hfail, hs'⟩ := initModuleFail_ok hlist hs
    refine .inr (.inl ⟨s', ?_, by omega, m, by omega, L, hL, hs'⟩)
    simp [initModule_apply hcache hrun, hret, hfail]

theorem freeEntries_frees (m : ℕ) : Frees Globals.log rest
    (upTo (fun j => {.ctrl j} + {.entry j}) m)
    ((List.range m).forM fun j => (do
      release (.ctrl j)
      release (.entry j) : M PUnit)) :=
  .forM (fun _ => (release_frees _).bind (release_frees _)) _

theorem kfree_frees (p : Bool) (r : Resource) :
    Frees Globals.log rest (if p then {r} else 0) (kfree p r) := Ledger.releaseIf_frees p r

theorem serversHeld_eq (cfg : Config) (m : ℕ) : serversHeld cfg m =
    upTo (queuesHeld cfg.numqueuesPerserver) m +
      (upTo (fun j => {.ctrl j} + {.entry j}) m + upTo (unreleased cfg) m) := by
  rw [serversHeld, ← upTo_add _ (unreleased cfg)]
  rfl

/-- An unloading leaves the queue array and the device record of every server. -/
theorem cleanupModule_ok (h : Loaded cfg k s) :
    ∃ s', cleanupModule cfg s = .ok ⟨⟩ s' ∧
      settle s'.log = some (upTo (unreleased cfg) cfg.numServer) := by
  have hs : settle s.log = some (upTo (queuesHeld cfg.numqueuesPerserver) cfg.numServer +
      ({.client} + (upTo (fun j => {.ctrl j} + {.entry j}) cfg.numServer +
        ((if k.gctrl then {.gctrl} else 0) +
          ({.reqCache} + upTo (unreleased cfg) cfg.numServer))))) := by
    rw [h.held, serversHeld_eq]
    exact congrArg some (by abel)
  obtain ⟨s₁, hfree, hs₁, hrest₁⟩ := freeServers_frees cfg cfg.numServer s _ hs
  obtain ⟨s₂, hclient, hs₂, hrest₂⟩ := release_frees .client s₁ _ hs₁
  obtain ⟨s₃, hentries, hs₃, hrest₃⟩ := freeEntries_frees cfg.numServer s₂ _ hs₂
  obtain ⟨s₄, hgctrl, hs₄, hrest₄⟩ :=
    kfree_frees k.gctrl .gctrl { s₃ with gctrlList := [] } _ hs₃
  obtain ⟨s₅, hcache, hs₅, -⟩ := release_frees .reqCache s₄ _ hs₄
  have hlist : s₂.gctrlList = List.range cfg.numServer :=
    (congrArg Globals.gctrlList (hrest₂.trans hrest₁)).trans h.list
  have hg : s₃.gctrl = k.gctrl :=
    (congrArg Globals.gctrl (hrest₃.trans (hrest₂.trans hrest₁))).trans h.gctrl
  have hrc : s₄.reqCache = true :=
    (congrArg Globals.reqCache hrest₄).trans
      ((congrArg Globals.reqCache (hrest₃.trans (hrest₂.trans hrest₁))).trans h.reqCache)
  refine ⟨s₅, ?_, hs₅⟩
  rw [← hg] at hgctrl
  simp only [cleanupModule, bind_apply, StateError.get_apply, StateError.modify_apply, h.list, hfree,
    hclient, hlist, hentries, hgctrl, hrc, if_true, hcache]

/-- What the loading and, if that succeeds, the unloading leave behind, once the
request cache exists: no queue object, and nothing is released twice. -/
theorem life_cases (cfg : Config) (k : Answers) (hcache : k.reqCache = true) :
    (∃ s, life cfg k .initial = .ok 0 s ∧
        settle s.log = some (upTo (unreleased cfg) cfg.numServer)) ∨
      (∃ s, life cfg k .initial = .ok (-enodev) s ∧ 0 < cfg.numServer ∧ FailedWith cfg s) ∨
      (∃ s, life cfg k .initial = .error .nullDeref s ∧ 0 < cfg.numServer) := by
  obtain ⟨s, hinit, hload⟩ | ⟨s, hinit, hpos, hfail⟩ | ⟨s, hinit, hpos⟩ := initModule_cases cfg k hcache
  · obtain ⟨s', hclean, hs'⟩ := cleanupModule_ok hload
    exact .inl ⟨s', by simp [life, hinit, hclean], hs'⟩
  · exact .inr (.inl ⟨s, by simp [life, hinit, enodev], hpos, hfail⟩)
  · exact .inr (.inr ⟨s, by simp [life, hinit], hpos⟩)

/-- The objects of an initialised queue among the resources. -/
def Resource.OfQueue : Resource → Prop
  | .cmId .. | .cq .. | .qp .. => True
  | _ => False

theorem mem_upTo {F : ℕ → Multiset Resource} {m : ℕ} {r : Resource} :
    r ∈ upTo F m ↔ ∃ j < m, r ∈ F j := by
  induction m with
  | zero => simp
  | succ m ih =>
    rw [upTo_succ, Multiset.mem_add, ih]
    constructor
    · rintro (hr | ⟨j, hj, hr⟩)
      · exact ⟨m, by omega, hr⟩
      · exact ⟨j, by omega, hr⟩
    · rintro ⟨j, hj, hr⟩
      by_cases hjm : j = m
      · exact .inl (hjm ▸ hr)
      · exact .inr ⟨j, by omega, hr⟩

theorem not_ofQueue_of_unreleased {r : Resource} (h : r ∈ unreleased cfg j) : ¬ r.OfQueue := by
  rw [unreleased, Multiset.mem_add, Multiset.mem_singleton] at h
  obtain rfl | h := h
  · exact id
  · have hdev := Multiset.mem_of_le (deviceOf_le _ _) h
    simp only [Multiset.insert_eq_cons, Multiset.mem_cons, Multiset.mem_singleton] at hdev
    obtain rfl | rfl := hdev <;> exact id

theorem FailedWith.not_ofQueue (h : FailedWith cfg s) :
    ∃ H, settle s.log = some H ∧ ∀ r ∈ H, ¬ r.OfQueue := by
  obtain ⟨m, -, L, hL, hs⟩ := h
  refine ⟨_, hs, fun r hr => ?_⟩
  rw [Multiset.mem_add, Multiset.mem_add, mem_upTo] at hr
  obtain ⟨j, -, hr⟩ | hr | hr := hr
  · simp only [serverLeft, Multiset.mem_add, Multiset.mem_singleton] at hr
    obtain (rfl | rfl) | hr := hr
    · exact id
    · exact id
    · exact not_ofQueue_of_unreleased hr
  · have hleft := Multiset.mem_of_le hL hr
    simp only [ctrlLeft, Multiset.mem_add, Multiset.insert_eq_cons, Multiset.mem_cons,
      Multiset.mem_singleton] at hleft
    obtain rfl | rfl | rfl | rfl | rfl := hleft <;> exact id
  · rw [Multiset.mem_singleton] at hr
    subst hr
    exact id

/-- The objects of every initialised queue are released exactly once, whatever fails. -/
theorem queue_objects_released {ret : ℤ} {r : Resource}
    (hrun : life cfg k .initial = .ok ret s) (hr : r.OfQueue) :
    s.log.count (.release r) = s.log.count (.acquire r) := by
  have hheld : ∃ H, settle s.log = some H ∧ ∀ r ∈ H, ¬ r.OfQueue := by
    by_cases hcache : k.reqCache = true
    · obtain ⟨s', hlife, hs'⟩ | ⟨s', hlife, -, hfail⟩ | ⟨s', hlife, -⟩ := life_cases cfg k hcache
      · rw [hlife] at hrun
        cases hrun
        refine ⟨_, hs', fun r hr => ?_⟩
        obtain ⟨j, -, hj⟩ := mem_upTo.mp hr
        exact not_ofQueue_of_unreleased hj
      · rw [hlife] at hrun
        cases hrun
        exact hfail.not_ofQueue
      · rw [hlife] at hrun
        cases hrun
    · have hnone : life cfg k .initial = .ok (-Rdma.enomem) .initial := by
        simp [life, initModule, hcache, Rdma.enomem]
      rw [hnone] at hrun
      cases hrun
      exact ⟨0, rfl, fun r hr => absurd hr (Multiset.notMem_zero r)⟩
  obtain ⟨H, hs, hnone⟩ := hheld
  have hcount := Ledger.settle_count hs r
  have hzero : H.count r = 0 := Multiset.count_eq_zero.mpr fun hmem => hnone r hmem hr
  omega

/-- The module returns from its loading, and from its unloading if there is one, and
everything that it has acquired is released, nothing of it twice. -/
def ResourcesBalance (cfg : Config) (k : Answers) : Prop :=
  ∃ ret s, life cfg k .initial = .ok ret s ∧ Balanced s.log

/-- The resources balance only if there was nothing to release: no request cache, or no server. -/
theorem resources_balance_iff (cfg : Config) (k : Answers) :
    ResourcesBalance cfg k ↔ k.reqCache = false ∨ cfg.numServer = 0 := by
  constructor
  · rintro ⟨ret, s, hrun, hbal⟩
    by_contra hnot
    rw [not_or, Bool.not_eq_false] at hnot
    obtain ⟨s', hlife, hs'⟩ | ⟨s', hlife, -, m, -, L, -, hs'⟩ | ⟨s', hlife, -⟩ :=
      life_cases cfg k hnot.1
    · rw [hlife] at hrun
      cases hrun
      have hzero := (Ledger.balanced_iff hs').mp hbal
      obtain ⟨m, hm⟩ := Nat.exists_eq_succ_of_ne_zero hnot.2
      rw [hm, upTo_succ, unreleased] at hzero
      simp at hzero
    · rw [hlife] at hrun
      cases hrun
      have hzero := (Ledger.balanced_iff hs').mp hbal
      have hmem : Resource.reqCache ∈ upTo (serverLeft cfg) m + (L + {.reqCache}) := by simp
      rw [hzero] at hmem
      cases hmem
    · rw [hlife] at hrun
      cases hrun
  · intro h
    by_cases hcache : k.reqCache = false
    · refine ⟨-Rdma.enomem, .initial, ?_, (Ledger.balanced_iff Ledger.settle_nil).mpr rfl⟩
      simp [life, initModule, hcache, Rdma.enomem]
    · have hnone : cfg.numServer = 0 := h.resolve_left hcache
      obtain ⟨s, hlife, hs⟩ | ⟨s, -, hpos, -⟩ | ⟨s, -, hpos⟩ :=
        life_cases cfg k (Bool.of_not_eq_false hcache)
      · rw [hnone] at hs
        exact ⟨0, s, hlife, (Ledger.balanced_iff hs).mpr rfl⟩
      · omega
      · omega

/-- Two servers and one CPU, with addresses of one digit. -/
def twoServers : Config := ⟨2, fun _ => ['1'], ['1'], 3⟩

/-- Every call succeeds, but the initialisation of a queue of server 1 returns `ret`. -/
def answersWith (ret : ℤ) : Answers where
  reqCache := true
  entry _ := true
  ctrl _ := true
  queues _ := true
  gctrl := true
  in4Pton _ := true
  initQueue j _ := if j = 1 then ret else 0
  recvRemotemr _ := 0

/-- After a loading and an unloading the queue array of server 0 is left, and after a
loading in which the first queue of server 1 times out the request cache is. -/
theorem resources_balance_counterexample :
    (∃ s, life twoServers (answersWith 0) .initial = .ok 0 s ∧
      s.log.count (.acquire (.queues 0)) = 1 ∧ s.log.count (.release (.queues 0)) = 0) ∧
    (∃ s, life twoServers (answersWith (-110)) .initial = .ok (-enodev) s ∧
      s.log.count (.acquire .reqCache) = 1 ∧ s.log.count (.release .reqCache) = 0) ∧
    ¬ ∀ cfg k, ResourcesBalance cfg k := by
  have hqueues : ∃ s, life twoServers (answersWith 0) .initial = .ok 0 s ∧
      s.log.count (.acquire (.queues 0)) = 1 ∧ s.log.count (.release (.queues 0)) = 0 :=
    ⟨_, rfl, rfl, rfl⟩
  refine ⟨hqueues, ⟨_, rfl, rfl, rfl⟩, fun h => ?_⟩
  obtain ⟨s, hlife, hacquired, hreleased⟩ := hqueues
  obtain ⟨ret, s', hrun, hbal⟩ := h twoServers (answersWith 0)
  rw [hlife] at hrun
  cases hrun
  have hleft := hbal.released (.queues 0)
  omega

end Multiswap.Driver
