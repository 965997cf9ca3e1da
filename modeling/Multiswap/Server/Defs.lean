import Mathlib.Data.Nat.Notation
import Mathlib.Data.Int.Notation
import Mathlib.Logic.Function.Basic
import Mathlib.Tactic.Simps.Basic
import Multiswap.Lib.StateError

/-!
# The memory server

`rmserver.c`: the table of queues, the handlers of connection events and the two
event loops of `main`. A connection is a `rdma_cm_id`, of any type `κ`. What the
libraries answer while one event is handled is given by a `Verbs`.
-/

namespace Multiswap.Server

/-- `BUFFER_SIZE`, the memory that one server registers. -/
def bufferSize : ℕ := 1024 * 1024 * 1024 * 4

@[simp] theorem bufferSize_eq : bufferSize = 4294967296 := rfl

/-- `NUM_PROCS`. -/
def numProcs : ℕ := 6

/-- `NUM_QUEUES_PER_PROC`. -/
def numQueuesPerProc : ℕ := 3

/-- `NUM_QUEUES`. -/
def numQueues : ℕ := numProcs * numQueuesPerProc

/-- `struct memregion`. -/
structure MemRegion where
  baseaddr : ℕ
  key : ℕ
  deriving DecidableEq, Repr

/-- The fields of `struct rdma_conn_param` that `on_connect_request` passes on. -/
structure ConnParam where
  initiatorDepth : ℕ
  responderResources : ℕ
  rnrRetryCount : ℕ
  flowControl : ℕ
  deriving DecidableEq, Repr

/-- The checks `TEST_Z` and `TEST_NZ` that the handlers make. -/
inductive Test where
  | mallocDev
  | verbs
  | allocPd
  | mallocBuffer
  | regMr
  | createQp
  | queryDevice
  | accept
  | postSend
  -- `TEST_Z(q->state == queue::INIT)`.
  | stateInit
  -- `TEST_Z(ctrl->dev)`.
  | ctrlDev
  deriving DecidableEq, Repr

/-- How the process ends inside a handler. -/
inductive Abort where
  -- A check failed and `die` ended the process.
  | die (t : Test)
  -- `gctrl->queues` indexed beyond its end.
  | queues (index : ℕ)
  -- A null pointer was dereferenced.
  | nullDeref
  deriving DecidableEq, Repr

/-- What the libraries answer while one event is handled. -/
structure Verbs where
  -- The checks of library calls that fail.
  fails : Test → Bool
  -- The region of `ibv_reg_mr`.
  region : MemRegion

/-- The library calls that a client or the far memory notices. -/
inductive Call (κ : Type) where
  | regMr (r : MemRegion)
  | createQp (id : κ)
  | accept (id : κ) (param : ConnParam)
  | postSend (id : κ) (servermr : MemRegion)
  | destroyQp (id : κ)
  | destroyId (id : κ)
  | deregMr (r : MemRegion)
  | freeBuffer
  deriving DecidableEq, Repr

/-- `state` of `struct queue`. -/
inductive QueueState where
  | init
  | connected
  deriving DecidableEq, Repr

/-- `struct queue`. The queue pair is named by the connection it belongs to. -/
structure Entry (κ : Type) where
  qp : Option κ
  cmId : Option κ
  state : QueueState

/-- The memory of the process: `gctrl`, `queue_ctr`, the `context` of every
connection, and the library calls made so far. The device, the buffer and its
region are set together, so one field stands for the three. -/
@[ext]
structure Globals (κ : Type) where
  queues : Fin numQueues → Entry κ
  device : Option MemRegion
  queueCtr : ℕ
  context : κ → Option (Fin numQueues)
  calls : List (Call κ)

/-- After `alloc_control`. -/
def Globals.initial (κ : Type) : Globals κ where
  queues _ := ⟨none, none, .init⟩
  device := none
  queueCtr := 0
  context _ := none
  calls := []

/-- The message with the memory region was posted on a connection. -/
def Globals.Posted {κ : Type} (g : Globals κ) (id : κ) : Prop := ∃ r, Call.postSend id r ∈ g.calls

/-- The connection on which a call posts that message. -/
def Call.postedOn? {κ : Type} : Call κ → Option κ
  | .postSend id _ => some id
  | _ => none

instance {κ : Type} [DecidableEq κ] (g : Globals κ) (id : κ) : Decidable (g.Posted id) :=
  decidable_of_iff (∃ c ∈ g.calls, c.postedOn? = some id) <| by
    constructor
    · rintro ⟨c, hc, hon⟩
      cases c with
      | postSend id' r =>
        cases hon
        exact ⟨r, hc⟩
      | _ => cases hon
    · rintro ⟨r, hr⟩
      exact ⟨_, hr, rfl⟩

/-- `struct rdma_cm_event`: the kind of event and its connection. -/
inductive CmEvent (κ : Type) where
  | connectRequest (id : κ) (param : ConnParam)
  | established (id : κ)
  | disconnected (id : κ)
  -- Any other event.
  | other (id : κ)
  deriving DecidableEq, Repr

variable {κ : Type}

/-- Record a library call. -/
@[simps -fullyApplied]
def Globals.log (s : Globals κ) (c : Call κ) : Globals κ := { s with calls := s.calls ++ [c] }

/-- Replace one entry of the table. -/
@[simps -fullyApplied]
def Globals.setQueue (s : Globals κ) (q : Fin numQueues) (e : Entry κ) : Globals κ :=
  { s with queues := Function.update s.queues q e }

abbrev Exec (κ : Type) := EStateM Abort (Globals κ)

/-- `TEST_Z` and `TEST_NZ`. -/
def test (ok : Bool) (t : Test) : Exec κ Unit := if ok then pure () else throw (.die t)

/-- A pointer that is dereferenced. -/
def deref {β : Type} : Option β → Exec κ β
  | none => throw .nullDeref
  | some b => pure b

/-- `get_device`. -/
def getDevice (v : Verbs) : Exec κ Unit := do
  if (← get).device = none then
    test (!v.fails .mallocDev) .mallocDev
    test (!v.fails .verbs) .verbs
    test (!v.fails .allocPd) .allocPd
    test (!v.fails .mallocBuffer) .mallocBuffer
    test (!v.fails .regMr) .regMr
    modify fun s => { s.log (.regMr v.region) with device := some v.region }

/-- `destroy_device`. -/
def destroyDevice : Exec κ Unit := do
  match (← get).device with
  | none => throw (.die .ctrlDev)
  | some r => modify fun s => { (s.log (.deregMr r)).log .freeBuffer with device := none }

/-- `create_qp`. -/
def createQp (v : Verbs) (q : Fin numQueues) : Exec κ Unit := do
  let e := (← get).queues q
  let id ← deref e.cmId
  test (!v.fails .createQp) .createQp
  modify fun s => (s.log (.createQp id)).setQueue q { e with qp := some id }

/-- `on_connect_request`. -/
def onConnectRequest [DecidableEq κ] (v : Verbs) (id : κ) (param : ConnParam) : Exec κ ℤ := do
  let s ← get
  set { s with queueCtr := s.queueCtr + 1 }
  if h : s.queueCtr < numQueues then
    let q : Fin numQueues := ⟨s.queueCtr, h⟩
    let e := s.queues q
    test (e.state = .init) .stateInit
    modify fun s =>
      { s.setQueue q { e with cmId := some id } with
        context := Function.update s.context id (some q) }
    getDevice v
    createQp v q
    test (!v.fails .queryDevice) .queryDevice
    test (!v.fails .accept) .accept
    modify fun s => s.log (.accept id param)
    return 0
  else
    throw (.queues s.queueCtr)

/-- `on_connection`. -/
def onConnection (v : Verbs) (q : Fin numQueues) : Exec κ ℤ := do
  let s ← get
  let e := s.queues q
  test (e.state = .init) .stateInit
  if q.val = 0 then
    let servermr ← deref s.device
    let qp ← deref e.qp
    test (!v.fails .postSend) .postSend
    modify fun s => s.log (.postSend qp servermr)
  modify fun s => s.setQueue q { e with state := .connected }
  return 0

/-- `on_disconnect`. -/
def onDisconnect (q : Fin numQueues) : Exec κ ℤ := do
  let s ← get
  let e := s.queues q
  if e.state = .connected then
    let id ← deref e.cmId
    set (((s.setQueue q { e with state := .init }).log (.destroyQp id)).log (.destroyId id))
  return 0

/-- `on_event`. -/
def onEvent [DecidableEq κ] (v : Verbs) (event : CmEvent κ) : Exec κ ℤ := do
  match event with
  | .connectRequest id param => onConnectRequest v id param
  | .established id =>
    let q ← deref ((← get).context id)
    onConnection v q
  | .disconnected id =>
    let q ← deref ((← get).context id)
    let _ ← onDisconnect q
    return 1
  | .other _ => return 1

/-- Where `main` stands. -/
inductive Phase where
  -- In the loop that waits for queue `i` to connect.
  | connecting (i : Fin numQueues)
  -- In the loop that handles disconnects.
  | serving
  -- After `destroy_device`.
  | exited
  | died (a : Abort)
  deriving DecidableEq, Repr

/-- The server process. -/
structure Process (κ : Type) where
  phase : Phase
  globals : Globals κ

/-- `main` when it reaches its event loops. -/
def Process.initial (κ : Type) : Process κ where
  phase := .connecting ⟨0, by decide⟩
  globals := .initial κ

/-- In one of the two event loops. -/
def Process.InLoops (p : Process κ) : Prop :=
  match p.phase with
  | .connecting _ | .serving => True
  | .exited | .died _ => False

instance (p : Process κ) : Decidable p.InLoops :=
  match h : p.phase with
  | .connecting _ | .serving => .isTrue (by simp [Process.InLoops, h])
  | .exited | .died _ => .isFalse (by simp [Process.InLoops, h])

/-- The phase after the loop for queue `i`. -/
def Phase.afterQueue (i : Fin numQueues) : Phase :=
  if h : i.val + 1 < numQueues then .connecting ⟨i.val + 1, h⟩ else .serving

/-- `main` after its event loops. -/
def Process.exit (s : Globals κ) : Process κ :=
  match destroyDevice s with
  | .ok _ s' => ⟨.exited, s'⟩
  | .error a s' => ⟨.died a, s'⟩

/-- One turn of the event loop that `main` is in. There is no event if
`rdma_get_cm_event` failed. -/
def Process.turn [DecidableEq κ] (p : Process κ) (v : Verbs) (event : Option (CmEvent κ)) :
    Process κ :=
  match p.phase, event with
  | .connecting i, none => { p with phase := .afterQueue i }
  | .connecting i, some e =>
    match onEvent v e p.globals with
    | .ok ret s =>
      if ret ≠ 0 ∨ (s.queues i).state = .connected then ⟨.afterQueue i, s⟩ else ⟨p.phase, s⟩
    | .error a s => ⟨.died a, s⟩
  | .serving, none => .exit p.globals
  | .serving, some e =>
    match onEvent v e p.globals with
    | .ok ret s => if ret ≠ 0 then .exit s else ⟨p.phase, s⟩
    | .error a s => ⟨.died a, s⟩
  | .exited, _ | .died _, _ => p

end Multiswap.Server
