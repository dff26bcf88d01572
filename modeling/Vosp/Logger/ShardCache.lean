import Mathlib.Algebra.Group.Nat.Defs
import Vosp.Lib.System
import Vosp.Logger.Basic

/-!
This module contains `current_thread_shard` for any number of buffered sinks and threads. Every thread has
one pair of thread-local variables, which all sinks share. Sinks come and go, and so do threads; addresses
and thread ids are used again. Sinks are given away only when no operation uses them.
-/

namespace Vosp.ShardCache

abbrev SinkAddress := Nat

abbrev ShardAddress := Nat

structure Shard where
  address : ShardAddress
  producer : ThreadId
  deriving DecidableEq

structure Sink where
  instanceId : Nat
  registryOwner : Option ThreadId
  shards : List Shard

inductive Pc where
  | idle
  | compare (sink : SinkAddress)
  | registryLock (sink : SinkAddress)
  | find (sink : SinkAddress)
  | emplace (sink : SinkAddress)
  | unwind (sink : SinkAddress)
  | registryUnlock (sink : SinkAddress)
  | store (sink : SinkAddress)
  | returned (sink : SinkAddress) (shard : Option ShardAddress)
  deriving DecidableEq

def Pc.sink (pc : Pc) : Option SinkAddress :=
  match pc with
  | .idle => none
  | .compare sink | .registryLock sink | .find sink | .emplace sink | .unwind sink | .registryUnlock sink
  | .store sink | .returned sink _ => some sink

-- The null pointer is `none`.
structure Thread where
  cachedInstanceId : Nat := 0
  cachedShard : Option ShardAddress := none
  pc : Pc := .idle

/--
Sinks at their addresses and the thread-local variables of the threads that they have in common.
-/
structure State where
  nextInstanceId : Nat
  sinks : SinkAddress → Option Sink
  -- The memory of the shards.
  allocated : ShardAddress → Bool
  running : List ThreadId
  threads : ThreadId → Thread

inductive Event where
  | construct (sink : SinkAddress) (flushThreshold : Nat)
  | destroy (sink : SinkAddress)
  | start (thread : ThreadId)
  | exit (thread : ThreadId)
  | call (thread : ThreadId) (sink : SinkAddress)
  -- The address is the one that the allocator gives to a new shard.
  | step (thread : ThreadId) (address : ShardAddress)
  -- The allocation of a shard throws.
  | fail (thread : ThreadId)
  | done (thread : ThreadId)

namespace State

def init : State where
  nextInstanceId := 1
  sinks _ := none
  allocated _ := false
  running := []
  threads _ := {}

def setSink (s : State) (address : SinkAddress) (sink : Option Sink) : State :=
  { s with sinks := Function.update s.sinks address sink }

def setThread (s : State) (thread : ThreadId) (t : Thread) : State :=
  { s with threads := Function.update s.threads thread t }

-- The id is drawn before the threshold is checked.
def construct (s : State) (address : SinkAddress) (flushThreshold : Nat) : Option State :=
  if (s.sinks address).isNone then
    let instanceId := s.nextInstanceId
    let s := { s with nextInstanceId := (instanceId + 1) % 2 ^ 64 }
    if flushThreshold = 0 then
      some s
    else
      some (s.setSink address (some { instanceId := instanceId, registryOwner := none, shards := [] }))
  else
    none

def destroy (s : State) (address : SinkAddress) : Option State :=
  match s.sinks address with
  | some sink =>
    if ∀ thread ∈ s.running, (s.threads thread).pc.sink ≠ some address then
      let allocated shard := s.allocated shard && sink.shards.all fun freed => freed.address ≠ shard
      some ({ s with allocated := allocated }.setSink address none)
    else
      none
  | none => none

def start (s : State) (thread : ThreadId) : Option State :=
  if thread ∈ s.running then
    none
  else
    some ({ s with running := thread :: s.running }.setThread thread {})

def exit (s : State) (thread : ThreadId) : Option State :=
  if thread ∈ s.running ∧ (s.threads thread).pc = .idle then
    some { s with running := s.running.erase thread }
  else
    none

def call (s : State) (thread : ThreadId) (address : SinkAddress) : Option State :=
  let t := s.threads thread
  if thread ∈ s.running ∧ t.pc = .idle ∧ (s.sinks address).isSome then
    some (s.setThread thread { t with pc := .compare address })
  else
    none

def find (s : State) (thread : ThreadId) (address : SinkAddress) (sink : Sink) : State :=
  let t := s.threads thread
  match sink.shards.find? fun candidate => candidate.producer = thread with
  | some shard => s.setThread thread { t with cachedShard := some shard.address, pc := .registryUnlock address }
  | none => s.setThread thread { t with pc := .emplace address }

def emplace (s : State) (thread : ThreadId) (address : SinkAddress) (sink : Sink) (allocated : ShardAddress)
    : Option State :=
  let t := s.threads thread
  if s.allocated allocated then
    none
  else
    let sink := { sink with shards := sink.shards ++ [{ address := allocated, producer := thread }] }
    let s := { s with allocated := Function.update s.allocated allocated true }
    some ((s.setSink address (some sink)).setThread thread
      { t with cachedShard := some allocated, pc := .registryUnlock address })

-- A call on a sink that does not live any more is undefined.
def advance (s : State) (thread : ThreadId) (allocated : ShardAddress) : Option State := do
  let t := s.threads thread
  let address ← t.pc.sink
  let sink ← s.sinks address
  match t.pc with
  | .compare _ =>
    if t.cachedInstanceId = sink.instanceId then
      some (s.setThread thread { t with pc := .returned address t.cachedShard })
    else
      some (s.setThread thread { t with pc := .registryLock address })
  | .registryLock _ =>
    if sink.registryOwner.isNone then
      some ((s.setSink address (some { sink with registryOwner := some thread })).setThread thread
        { t with pc := .find address })
    else
      none
  | .find _ => some (s.find thread address sink)
  | .emplace _ => s.emplace thread address sink allocated
  | .unwind _ =>
    some ((s.setSink address (some { sink with registryOwner := none })).setThread thread { t with pc := .idle })
  | .registryUnlock _ =>
    some ((s.setSink address (some { sink with registryOwner := none })).setThread thread
      { t with pc := .store address })
  | .store _ =>
    some (s.setThread thread
      { t with cachedInstanceId := sink.instanceId, pc := .returned address t.cachedShard })
  | .idle | .returned _ _ => none

def fail (s : State) (thread : ThreadId) : Option State :=
  let t := s.threads thread
  match t.pc with
  | .emplace address => some (s.setThread thread { t with pc := .unwind address })
  | _ => none

def done (s : State) (thread : ThreadId) : Option State :=
  let t := s.threads thread
  match t.pc with
  | .returned _ _ => some (s.setThread thread { t with pc := .idle })
  | _ => none

def step (s : State) (event : Event) : Option State :=
  match event with
  | .construct address flushThreshold => s.construct address flushThreshold
  | .destroy address => s.destroy address
  | .start thread => s.start thread
  | .exit thread => s.exit thread
  | .call thread address => s.call thread address
  | .step thread allocated => s.advance thread allocated
  | .fail thread => s.fail thread
  | .done thread => s.done thread

end State

def system : System State Event where
  init := .init
  step := State.step

def noWrap (s : State) (event : Event) : Bool :=
  match event with
  | .construct _ _ => s.nextInstanceId + 1 < 2 ^ 64
  | _ => true

structure Return where
  instanceId : Nat
  thread : ThreadId
  shard : Option ShardAddress
  deriving DecidableEq

def State.returns (s : State) (event : Event) : List Return :=
  match event with
  | .step thread _ =>
    let t := s.threads thread
    match t.pc with
    | .compare address =>
      match s.sinks address with
      | some sink =>
        if t.cachedInstanceId = sink.instanceId then [⟨sink.instanceId, thread, t.cachedShard⟩] else []
      | none => []
    | .store address =>
      match s.sinks address with
      | some sink => [⟨sink.instanceId, thread, t.cachedShard⟩]
      | none => []
    | _ => []
  | _ => []

end Vosp.ShardCache
