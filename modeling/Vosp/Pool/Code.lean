import Mathlib.Data.Fintype.Basic
import Vosp.Pool.Memory

/-!
This module contains the atomic instructions of the pool's threads and what they do to the shared
memory. Every instruction is one sequentially consistent step; `κ` are the program points at which
the thread continues.

`wait` blocks the thread if the word still has the observed value. A blocked thread takes no step
until a notification or a spurious wake-up unblocks it, and then compares again. Which thread
`notifyOne` unblocks is a choice of the environment. An instruction that ends the program, because
it dereferences an empty slot or calls `std::terminate`, records that and stays where it is.
-/

namespace Vosp.Pool

/--
An atomic instruction with the program points at which its thread goes on.
-/
inductive Code (cfg : Config) (C κ : Type) where
  | await (k : Request → Nat → κ)
  | body (call : Request → Nat → κ) (ret : Outcome → κ)
  | read (k : Memory cfg C → κ)
  | lock (mutex : Mutex) (k : κ)
  | tryLock (mutex : Mutex) (k : Bool → κ)
  | unlock (mutex : Mutex) (k : κ)
  | enlist (group : Group) (k : κ)
  | delist (group : Group) (k : κ)
  | wait (observed : Word cfg) (asleep k : κ)
  | notifyOne (k : κ)
  | notifyAll (k : κ)
  | waitEpoch (epoch : Nat) (asleep k : κ)
  | addEpoch (k : κ)
  | notifyEpoch (k : κ)
  | emplace (item : TaskItem) (k : κ)
  | publish (count : Nat) (k : κ)
  | peek (k : TaskItem → κ) (stay : κ)
  | take (k : TaskItem → κ) (stay : κ)
  | load (k : Memory cfg C → κ)
  | claim (count : Nat) (k : κ)
  | cancelHead (k stay : κ)
  | resetTail (k : κ)
  | cancelAll (count : Nat) (k : κ)
  | complete (item : TaskItem) (outcome : Outcome) (k stay : κ)
  | finish (count : Nat) (k : Word cfg → κ)
  | setStopping (k : κ)
  | requestStop (index : Fin cfg.workerCount) (k : κ)
  | signalled (mode : ShutdownMode) (k : κ)
  | swapWorkers (k : List (Fin cfg.workerCount) → κ)
  | join (index : Fin cfg.workerCount) (k : κ)
  | exit (k : κ)
  | halt

/--
What the environment decides at a step: the call of a client or a task, the end of a task, or the thread that
a notification unblocks.
-/
inductive Choice (cfg : Config) (C : Type) where
  | go
  | call (request : Request)
  | ret (outcome : Outcome)
  | unblock (thread : Thread cfg C)

def History.release (history : History) : History :=
  { history with removed := history.removed ++ history.leaving, leaving := [] }

namespace Memory

variable {cfg : Config} {C : Type} [DecidableEq C]

def setOwner (memory : Memory cfg C) (mutex : Mutex) (thread : Option (Thread cfg C)) : Memory cfg C :=
  { memory with owner := Function.update memory.owner mutex thread }

def setWaiting (memory : Memory cfg C) (group : Group) (count : Nat) : Memory cfg C :=
  { memory with waiting := Function.update memory.waiting group count }

def setStateSleeper (memory : Memory cfg C) (thread : Thread cfg C) (asleep : Bool) : Memory cfg C :=
  { memory with stateSleeper := Function.update memory.stateSleeper thread asleep }

def setEpochSleeper (memory : Memory cfg C) (thread : Thread cfg C) (asleep : Bool) : Memory cfg C :=
  { memory with epochSleeper := Function.update memory.epochSleeper thread asleep }

def startCall (memory : Memory cfg C) (request : Request) : Memory cfg C :=
  { memory with
    history :=
      { memory.history with
        calls := memory.history.calls ++ [request]
        nextId := memory.history.nextId + (request.items memory.history.nextId).length } }

def emplace (memory : Memory cfg C) (item : TaskItem) : Memory cfg C :=
  { memory with
    tasks := Function.update memory.tasks memory.queueTail (some item)
    queueTail := nextQueueIndex cfg memory.queueTail
    history := { memory.history with written := memory.history.written ++ [item] } }

def publish (memory : Memory cfg C) (count : Nat) : Memory cfg C :=
  { memory with
    queueState := publishState memory.queueState count
    history :=
      { memory.history with
        accepted := memory.history.accepted ++ memory.history.written
        queue := memory.history.queue ++ memory.history.written
        written := [] } }

def vacate (memory : Memory cfg C) (item : TaskItem) : Memory cfg C :=
  { memory with
    tasks := Function.update memory.tasks memory.queueHead none
    queueHead := nextQueueIndex cfg memory.queueHead
    history :=
      { memory.history with
        queue := memory.history.queue.tail
        leaving := memory.history.leaving ++ [item] } }

def load (memory : Memory cfg C) : Memory cfg C :=
  { memory with history := { memory.history with loaded := memory.history.queue } }

def claim (memory : Memory cfg C) (count : Nat) : Memory cfg C :=
  { memory with
    queueState := claimState memory.queueState count
    history := memory.history.release }

def cancelAll (memory : Memory cfg C) (count : Nat) : Memory cfg C :=
  { memory with
    queueState := cancelState memory.queueState count
    history := memory.history.release }

-- `none` is the call of `std::terminate` for a promise that is already satisfied.
def settle (memory : Memory cfg C) (item : TaskItem) (outcome : Outcome) : Option (Memory cfg C) :=
  match memory.promise item.id with
  | some _ => none
  | none => some { memory with promise := Function.update memory.promise item.id (some outcome) }

def cancel (memory : Memory cfg C) (item : TaskItem) : Option (Memory cfg C) :=
  let memory :=
    { memory with history := { memory.history with cancelled := memory.history.cancelled ++ [item] } }
  if item.tracked then
    memory.settle item cancelledOutcome
  else
    some { memory with cancelledDispatches := memory.cancelledDispatches + 1 }

def complete (memory : Memory cfg C) (item : TaskItem) (outcome : Outcome) : Option (Memory cfg C) :=
  let memory :=
    { memory with
      history := { memory.history with executed := memory.history.executed ++ [(item, outcome)] } }
  if item.tracked then
    memory.settle item outcome
  else if outcome.failed then
    some { memory with failedDispatches := memory.failedDispatches + 1 }
  else
    some memory

section

variable {memory memory' : Memory cfg C} {item : TaskItem} {outcome : Outcome}

omit [DecidableEq C] in
theorem settle_eq (h : memory.settle item outcome = some memory')
    : memory.promise item.id = none ∧
      memory' = { memory with promise := Function.update memory.promise item.id (some outcome) } := by
  unfold settle at h
  split at h
  . cases h
  . next hnone => exact ⟨hnone, (Option.some.inj h).symm⟩

omit [DecidableEq C] in
theorem promise_of_settle (h : memory.settle item outcome = some memory') {id : Nat}
    {outcome' : Outcome} (hsome : memory.promise id = some outcome')
    : memory'.promise id = some outcome' := by
  obtain ⟨hnone, rfl⟩ := settle_eq h
  by_cases hid : id = item.id
  . rw [hid, hnone] at hsome
    cases hsome
  . simpa [hid] using hsome

omit [DecidableEq C] in
theorem settle_eq_none (h : memory.settle item outcome = none)
    : ∃ outcome', memory.promise item.id = some outcome' := by
  unfold settle at h
  split at h
  . next hsome => exact ⟨_, hsome⟩
  . cases h

omit [DecidableEq C] in
theorem cancel_eq (h : memory.cancel item = some memory')
    : ∃ promise count, memory' =
      { memory with
        promise := promise
        cancelledDispatches := count
        history := { memory.history with cancelled := memory.history.cancelled ++ [item] } } := by
  unfold cancel at h
  split at h
  . exact ⟨_, _, (settle_eq h).2⟩
  . exact ⟨_, _, (Option.some.inj h).symm⟩

omit [DecidableEq C] in
theorem complete_eq (h : memory.complete item outcome = some memory')
    : ∃ promise count, memory' =
      { memory with
        promise := promise
        failedDispatches := count
        history := { memory.history with executed := memory.history.executed ++ [(item, outcome)] } } := by
  unfold complete at h
  split at h
  . exact ⟨_, _, (settle_eq h).2⟩
  . split at h
    . exact ⟨_, _, (Option.some.inj h).symm⟩
    . exact ⟨_, _, (Option.some.inj h).symm⟩

end

end Memory

namespace Code

variable {cfg : Config} {C κ : Type} [DecidableEq C]

-- `none`: the thread is blocked, or the choice does not fit the instruction.
def exec [Fintype C] (thread : Thread cfg C) (memory : Memory cfg C) (code : Code cfg C κ)
    (choice : Choice cfg C) : Option (Memory cfg C × κ) :=
  match code, choice with
  | .await k, .call request =>
    some (memory.startCall request, k request memory.history.nextId)
  | .body call _, .call request =>
    some (memory.startCall request, call request memory.history.nextId)
  | .body _ ret, .ret outcome => some (memory, ret outcome)
  | .read k, .go => some (memory, k memory)
  | .lock mutex k, .go =>
    if memory.owner mutex = none then some (memory.setOwner mutex (some thread), k) else none
  | .tryLock mutex k, .go =>
    if memory.owner mutex = none then
      some (memory.setOwner mutex (some thread), k true)
    else
      some (memory, k false)
  | .unlock mutex k, .go => some (memory.setOwner mutex none, k)
  | .enlist group k, .go => some (memory.setWaiting group (memory.waiting group + 1), k)
  | .delist group k, .go => some (memory.setWaiting group (memory.waiting group - 1), k)
  | .wait observed asleep k, .go =>
    if memory.stateSleeper thread then
      none
    else if memory.queueState = observed then
      some (memory.setStateSleeper thread true, asleep)
    else
      some (memory, k)
  | .notifyOne k, .unblock sleeper =>
    if memory.stateSleeper sleeper then some (memory.setStateSleeper sleeper false, k) else none
  | .notifyOne k, .go =>
    if ∀ sleeper, memory.stateSleeper sleeper = false then some (memory, k) else none
  | .notifyAll k, .go => some ({ memory with stateSleeper := fun _ => false }, k)
  | .waitEpoch epoch asleep k, .go =>
    if memory.epochSleeper thread then
      none
    else if memory.completionEpoch = epoch then
      some (memory.setEpochSleeper thread true, asleep)
    else
      some (memory, k)
  | .addEpoch k, .go => some ({ memory with completionEpoch := memory.completionEpoch + 1 }, k)
  | .notifyEpoch k, .go => some ({ memory with epochSleeper := fun _ => false }, k)
  | .emplace item k, .go => some (memory.emplace item, k)
  | .publish count k, .go => some (memory.publish count, k)
  | .peek k stay, .go =>
    match memory.tasks memory.queueHead with
    | some item => some (memory, k item)
    | none => some ({ memory with faulted := true }, stay)
  | .take k stay, .go =>
    match memory.tasks memory.queueHead with
    | some item => some (memory.vacate item, k item)
    | none => some ({ memory with faulted := true }, stay)
  | .load k, .go => some (memory.load, k memory)
  | .claim count k, .go => some (memory.claim count, k)
  | .cancelHead k stay, .go =>
    match memory.tasks memory.queueHead with
    | some item =>
      match memory.cancel item with
      | some memory => some (memory.vacate item, k)
      | none => some ({ memory with terminated := true }, stay)
    | none => some ({ memory with faulted := true }, stay)
  | .resetTail k, .go => some ({ memory with queueTail := memory.queueHead }, k)
  | .cancelAll count k, .go => some (memory.cancelAll count, k)
  | .complete item outcome k stay, .go =>
    match memory.complete item outcome with
    | some memory => some (memory, k)
    | none => some ({ memory with terminated := true }, stay)
  | .finish count k, .go =>
    some ({ memory with queueState := finishState memory.queueState count }, k memory.queueState)
  | .setStopping k, .go =>
    some ({ memory with queueState := stopState memory.queueState }, k)
  | .requestStop index k, .go =>
    some ({ memory with stopRequested := Function.update memory.stopRequested index true }, k)
  | .signalled mode k, .go =>
    some
      ({ memory with history := { memory.history with signalled := memory.history.signalled ++ [mode] } },
        k)
  | .swapWorkers k, .go => some ({ memory with workers := [] }, k memory.workers)
  | .join index k, .go => if memory.exited (.worker index) then some (memory, k) else none
  | .exit k, .go => some ({ memory with exited := Function.update memory.exited thread true }, k)
  | _, _ => none

end Code

end Vosp.Pool
