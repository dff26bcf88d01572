import Mathlib.Data.Fintype.Sum
import Vosp.Error.Basic
import Vosp.Pool.Config

/-!
This module contains the shared memory of a worker pool: the data members of the class, the owners
of its mutexes, the threads asleep in an atomic wait, the promises of the tracked tasks, and a
history that no step of the program reads. `terminated` records a call of `std::terminate`,
`faulted` the dereference of an empty slot.

A task is identified by a number that its submission draws. `cancellable` says which alternative of
`callback` it holds and `tracked` whether `completion` holds a promise.
-/

namespace Vosp.Pool

inductive ShutdownMode where
  | drain
  | cancelPending
  deriving DecidableEq

def taskCancelledCode : UInt32 := 0xE004

def taskCancelledError : Error :=
  ⟨.none, taskCancelledCode, ascii "Worker pool task was cancelled before execution"⟩

structure TaskItem where
  id : Nat
  cancellable : Bool
  tracked : Bool
  bulk : Bool
  deriving DecidableEq

inductive Outcome where
  | result (value : OperationResult)
  | exception (pointer : Nat)

def Outcome.failed (outcome : Outcome) : Bool :=
  match outcome with
  | .result (.ok _) => false
  | .result (.error _) => true
  | .exception _ => true

def cancelledOutcome : Outcome := .result (.error taskCancelledError)

inductive Observer where
  | workerCount
  | queueCapacity
  | pendingTasks
  | activeTasks
  | isStopping
  | failedDispatches
  | cancelledDispatches
  deriving DecidableEq

inductive Request where
  | submit
  | submitCancellable
  | dispatch
  | dispatchCancellable
  | dispatchBulk (count : Nat)
  | clearQueue
  | shutdown (mode : ShutdownMode)
  | wait
  | observe (observer : Observer)
  deriving DecidableEq

def Request.isScalar (request : Request) : Bool :=
  match request with
  | .submit | .submitCancellable | .dispatch | .dispatchCancellable => true
  | .dispatchBulk _ | .clearQueue | .shutdown _ | .wait | .observe _ => false

def Request.items (request : Request) (id : Nat) : List TaskItem :=
  match request with
  | .submit => [⟨id, false, true, false⟩]
  | .submitCancellable => [⟨id, true, true, false⟩]
  | .dispatch => [⟨id, false, false, false⟩]
  | .dispatchCancellable => [⟨id, true, false, false⟩]
  | .dispatchBulk count => (List.range count).map fun index => ⟨id + index, false, false, true⟩
  | .clearQueue | .shutdown _ | .wait | .observe _ => []

theorem Request.length_items {request : Request} (h : request.isScalar = true) (id : Nat)
    : (request.items id).length = 1 := by
  cases request
  all_goals first | rfl | cases h

inductive Thread (cfg : Config) (C : Type) where
  | worker (index : Fin cfg.workerCount)
  | client (name : C)
  deriving DecidableEq

def Thread.isWorker (thread : Thread cfg C) : Bool :=
  match thread with
  | .worker _ => true
  | .client _ => false

def Thread.equivSum (cfg : Config) (C : Type) : Fin cfg.workerCount ⊕ C ≃ Thread cfg C where
  toFun
    | .inl index => .worker index
    | .inr name => .client name
  invFun
    | .worker index => .inl index
    | .client name => .inr name
  left_inv := by rintro (_ | _) <;> rfl
  right_inv := by rintro (_ | _) <;> rfl

instance [Fintype C] : Fintype (Thread cfg C) := Fintype.ofEquiv _ (Thread.equivSum cfg C)

inductive Mutex where
  | producer
  | consumer
  | workers
  | shutdown
  deriving DecidableEq

inductive Group where
  | producers
  | workers
  | idle
  deriving DecidableEq

/-!
`queue` are the published tasks whose slot is still occupied, `written` the tasks in slots that are
not published yet and `leaving` the tasks that the holder of the consumer mutex has moved out of
their slots while the word still counts them. `removed` are all tasks that left the queue before.
`loaded` is the queue as a worker last loaded it under the consumer mutex.
-/

structure History where
  calls : List Request := []
  nextId : Nat := 0
  accepted : List TaskItem := []
  queue : List TaskItem := []
  written : List TaskItem := []
  leaving : List TaskItem := []
  removed : List TaskItem := []
  loaded : List TaskItem := []
  executed : List (TaskItem × Outcome) := []
  cancelled : List TaskItem := []
  signalled : List ShutdownMode := []

/--
The members of the pool, and what its threads block on.
-/
structure Memory (cfg : Config) (C : Type) where
  owner : Mutex → Option (Thread cfg C) := fun _ => none
  workers : List (Fin cfg.workerCount) := List.finRange cfg.workerCount
  tasks : Nat → Option TaskItem := fun _ => none
  queueHead : Nat := 0
  queueTail : Nat := 0
  queueState : Word cfg := BitVec.ofNat cfg.digits 0
  completionEpoch : Nat := 0
  waiting : Group → Nat := fun _ => 0
  failedDispatches : Nat := 0
  cancelledDispatches : Nat := 0
  promise : Nat → Option Outcome := fun _ => none
  stopRequested : Fin cfg.workerCount → Bool := fun _ => false
  exited : Thread cfg C → Bool := fun _ => false
  stateSleeper : Thread cfg C → Bool := fun _ => false
  epochSleeper : Thread cfg C → Bool := fun _ => false
  terminated : Bool := false
  faulted : Bool := false
  history : History := {}

namespace Memory

variable {cfg : Config} {C : Type}

def pendingTasks (memory : Memory cfg C) : Nat := pendingFromState memory.queueState

def activeTasks (memory : Memory cfg C) : Nat := activeFromState memory.queueState

def isStopping (memory : Memory cfg C) : Bool := isStoppingState memory.queueState

def observe (memory : Memory cfg C) (observer : Observer) : Nat :=
  match observer with
  | .workerCount => cfg.workerCount
  | .queueCapacity => cfg.queueCapacity
  | .pendingTasks => memory.pendingTasks
  | .activeTasks => memory.activeTasks
  | .isStopping => memory.isStopping.toNat
  | .failedDispatches => memory.failedDispatches
  | .cancelledDispatches => memory.cancelledDispatches

end Memory

end Vosp.Pool
