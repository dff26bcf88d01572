import Vosp.Lib.System
import Vosp.Logger.Basic

/-!
This module contains the asynchronous `Logger`: the public members that any thread may call, and the loop
of its background worker. A step is one access to the shared state, one operation on a mutex or one on a
condition variable. A sink callback runs on the worker and may call the public members as well.

The `backend_` is a parallel logger. What its sinks do is a choice of the environment: which sinks are
attached when it selects them, and whether they accept the record, reject it or throw.

`History` and the origin of a record are never read by a step.
-/

namespace Vosp.AsyncLogger

def queueCapacity : Nat := 1024

inductive Thread where
  | worker
  | client (name : Nat)
  deriving DecidableEq

def Thread.id (thread : Thread) : ThreadId :=
  match thread with
  | .worker => some 0
  | .client name => some (name + 1)

-- A `PendingRecord` is a level and an error; the other fields say which call it comes from.
structure LogRecord where
  id : Nat
  thread : Thread
  level : Level
  error : Error
  deriving DecidableEq

inductive Mutex where
  | queue
  | shutdown
  deriving DecidableEq

inductive Condition where
  | records
  | space
  | drained
  deriving DecidableEq

inductive Request where
  | write (level : Level) (error : Error)
  | flush
  | shutdown

inductive Outcome where
  | result (accepted : Bool)
  | thrown
  deriving DecidableEq

/--
Where a thread is in a public member, the last ones being about to return.
-/
inductive CallPc where
  | idle
  | write (record : LogRecord)
  | writeLock (record : LogRecord)
  | writeTest (record : LogRecord)
  | writeSleep (record : LogRecord)
  | writeCheck (record : LogRecord)
  | writeNotify (record : LogRecord)
  | writeUnlock (record : LogRecord) (result : Bool)
  | flushLock
  | flushTest
  | flushSleep
  | flushUnlock
  | shutdownLock
  | stopLock
  | stop
  | notifyRecords
  | notifySpace
  | stopUnlock
  | join
  | shutdownUnlock
  | wrote (record : LogRecord) (result : Bool)
  | flushed
  | shutDown
  deriving DecidableEq

/--
Where the worker is in `run`, with the rest of its batch.
-/
inductive WorkerPc where
  | lock
  | test
  | sleep
  | decide
  | exitNotify
  | exitUnlock
  | exited
  | notifySpace (batch : List LogRecord)
  | unlockBatch (batch : List LogRecord)
  | deliver (batch : List LogRecord)
  | callback (record : LogRecord) (batch : List LogRecord)
  | count (batch : List LogRecord)
  | relock
  | drain
  | notifyDrained
  | unlock
  deriving DecidableEq

/--
An entry that the sinks get. `during` says whether the call of `write` was still in progress.
-/
structure Delivery where
  record : LogRecord
  entry : LogEntry
  during : Bool

structure History where
  calls : List LogRecord
  -- The calls that were made when the logger was stopping.
  late : List LogRecord
  accepted : List LogRecord
  passed : List LogRecord
  finished : List (LogRecord × Outcome)
  delivered : List Delivery
  returned : List (LogRecord × Bool)
  -- What had returned when the current flush of a thread was called.
  before : Thread → List (LogRecord × Bool)

structure Memory where
  queue : List LogRecord
  stopping : Bool
  batchActive : Bool
  failedRecords : Nat
  -- `worker_` is not joinable any more.
  joined : Bool
  owner : Mutex → Option Thread
  asleep : Condition → Thread → Bool
  history : History

namespace Memory

def acquire (m : Memory) (mutex : Mutex) (thread : Thread) : Option Memory :=
  if m.owner mutex = none then
    some { m with owner := Function.update m.owner mutex (some thread) }
  else
    none

def release (m : Memory) (mutex : Mutex) : Memory :=
  { m with owner := Function.update m.owner mutex none }

def setAsleep (m : Memory) (condition : Condition) (thread : Thread) (asleep : Bool) : Memory :=
  { m with
    asleep := Function.update m.asleep condition (Function.update (m.asleep condition) thread asleep) }

-- `wait` releases the mutex of the queue and blocks in one step.
def sleep (m : Memory) (condition : Condition) (thread : Thread) : Memory :=
  (m.release .queue).setAsleep condition thread true

-- Only the worker waits for records, so `notify_one` does the same as `notify_all`.
def notify (m : Memory) (condition : Condition) : Memory :=
  { m with asleep := Function.update m.asleep condition (fun _ => false) }

def push (m : Memory) (record : LogRecord) : Memory :=
  { m with
    queue := m.queue ++ [record]
    history := { m.history with accepted := m.history.accepted ++ [record] } }

def startWrite (m : Memory) (record : LogRecord) : Memory :=
  { m with
    history := { m.history with
      calls := m.history.calls ++ [record]
      late := if m.stopping then m.history.late ++ [record] else m.history.late } }

def startFlush (m : Memory) (thread : Thread) : Memory :=
  { m with
    history := { m.history with
      before := Function.update m.history.before thread m.history.returned } }

def returnWrite (m : Memory) (record : LogRecord) (result : Bool) : Memory :=
  { m with history := { m.history with returned := m.history.returned ++ [(record, result)] } }

def pass (m : Memory) (record : LogRecord) : Memory :=
  { m with history := { m.history with passed := m.history.passed ++ [record] } }

def finish (m : Memory) (record : LogRecord) (outcome : Outcome) : Memory :=
  { m with history := { m.history with finished := m.history.finished ++ [(record, outcome)] } }

def hand (m : Memory) (delivery : Delivery) : Memory :=
  { m with history := { m.history with delivered := m.history.delivered ++ [delivery] } }

end Memory

def CallPc.step (policy : LoggerPolicy) (m : Memory) (exited : Bool) (thread : Thread) (pc : CallPc)
    : Option (Memory × CallPc) :=
  match pc with
  | .idle => none
  | .write record => some (m, if policy record.level then .writeLock record else .wrote record true)
  | .writeLock record => (m.acquire .queue thread).map (·, .writeTest record)
  | .writeTest record =>
    if m.stopping ∨ m.queue.length < queueCapacity then
      some (m, .writeCheck record)
    else
      some (m.sleep .space thread, .writeSleep record)
  | .writeSleep record => if m.asleep .space thread then none else some (m, .writeLock record)
  | .writeCheck record =>
    if m.stopping then
      some (m, .writeUnlock record false)
    else
      some (m.push record, .writeNotify record)
  | .writeNotify record => some (m.notify .records, .writeUnlock record true)
  | .writeUnlock record result => some (m.release .queue, .wrote record result)
  | .flushLock => (m.acquire .queue thread).map (·, .flushTest)
  | .flushTest =>
    if m.queue.isEmpty ∧ ¬m.batchActive then
      some (m, .flushUnlock)
    else
      some (m.sleep .drained thread, .flushSleep)
  | .flushSleep => if m.asleep .drained thread then none else some (m, .flushLock)
  | .flushUnlock => some (m.release .queue, .flushed)
  | .shutdownLock => (m.acquire .shutdown thread).map (·, .stopLock)
  | .stopLock => (m.acquire .queue thread).map (·, .stop)
  | .stop => some ({ m with stopping := true }, .notifyRecords)
  | .notifyRecords => some (m.notify .records, .notifySpace)
  | .notifySpace => some (m.notify .space, .stopUnlock)
  | .stopUnlock => some (m.release .queue, .join)
  | .join =>
    if m.joined ∨ thread = .worker then
      some (m, .shutdownUnlock)
    else if exited then
      some ({ m with joined := true }, .shutdownUnlock)
    else
      none
  | .shutdownUnlock => some (m.release .shutdown, .shutDown)
  | .wrote record result => some (m.returnWrite record result, .idle)
  | .flushed => some (m, .idle)
  | .shutDown => some (m, .idle)

def WorkerPc.step (m : Memory) (pc : WorkerPc) : Option (Memory × WorkerPc) :=
  match pc with
  | .lock => (m.acquire .queue .worker).map (·, .test)
  | .test =>
    if m.stopping ∨ ¬m.queue.isEmpty then
      some (m, .decide)
    else
      some (m.sleep .records .worker, .sleep)
  | .sleep => if m.asleep .records .worker then none else some (m, .lock)
  | .decide =>
    if m.queue.isEmpty ∧ m.stopping then
      some (m, .exitNotify)
    else
      some ({ m with queue := [], batchActive := true }, .notifySpace m.queue)
  | .exitNotify => some (m.notify .drained, .exitUnlock)
  | .exitUnlock => some (m.release .queue, .exited)
  | .exited => none
  | .notifySpace batch => some (m.notify .space, .unlockBatch batch)
  | .unlockBatch batch => some (m.release .queue, .deliver batch)
  | .deliver [] => some (m, .relock)
  | .deliver (_ :: _) => none
  | .callback _ _ => none
  | .count batch => some ({ m with failedRecords := m.failedRecords + 1 }, .deliver batch)
  | .relock => (m.acquire .queue .worker).map (·, .drain)
  | .drain => some ({ m with batchActive := false }, .notifyDrained)
  | .notifyDrained => some (if m.queue.isEmpty then m.notify .drained else m, .unlock)
  | .unlock => some (m.release .queue, .lock)

structure State where
  memory : Memory
  call : Thread → CallPc
  worker : WorkerPc

inductive Event where
  | call (thread : Thread) (request : Request)
  | step (thread : Thread)
  | work
  -- The worker calls `backend_.write_owned` for the next record of its batch.
  | backend (now : TimePoint) (attached : Bool)
  | finish (outcome : Outcome)
  | spurious (condition : Condition) (thread : Thread)

def CallPc.record (pc : CallPc) : Option LogRecord :=
  match pc with
  | .write record | .writeLock record | .writeTest record | .writeSleep record | .writeCheck record
  | .writeNotify record | .writeUnlock record _ | .wrote record _ => some record
  | _ => none

def WorkerPc.inCallback (pc : WorkerPc) : Bool :=
  match pc with
  | .callback _ _ => true
  | _ => false

namespace State

def init : State where
  memory := {
    queue := []
    stopping := false
    batchActive := false
    failedRecords := 0
    joined := false
    owner _ := none
    asleep _ _ := false
    history := {
      calls := []
      late := []
      accepted := []
      passed := []
      finished := []
      delivered := []
      returned := []
      before _ := []
    }
  }
  call _ := .idle
  worker := .lock

def setCall (s : State) (thread : Thread) (pc : CallPc) : State :=
  { s with call := Function.update s.call thread pc }

def startCall (s : State) (thread : Thread) (request : Request) : State :=
  match request with
  | .write level error =>
    let record := ⟨s.memory.history.calls.length, thread, level, error⟩
    { s with memory := s.memory.startWrite record }.setCall thread (.write record)
  | .flush => { s with memory := s.memory.startFlush thread }.setCall thread .flushLock
  | .shutdown => s.setCall thread .shutdownLock

-- The entry is built before the sinks are selected; without a sink there is no callback.
def stepBackend (policy : LoggerPolicy) (metadata : LoggerMetadataPolicy) (s : State) (now : TimePoint)
    (attached : Bool) : Option State :=
  match s.worker with
  | .deliver (record :: batch) =>
    let m := s.memory.pass record
    if ¬policy record.level then
      some { s with memory := m.finish record (.result true), worker := .deliver batch }
    else if attached then
      let entry := {
        timestamp := metadata.timestamp now
        threadId := metadata.threadId Thread.worker.id
        level := record.level
        error := record.error
      }
      let during := (s.call record.thread).record = some record
      some { s with memory := m.hand ⟨record, entry, during⟩, worker := .callback record batch }
    else
      some { s with memory := m.finish record (.result false), worker := .count batch }
  | _ => none

def stepFinish (s : State) (outcome : Outcome) : Option State :=
  match s.worker, s.call .worker with
  | .callback record batch, .idle =>
    let worker := if outcome = .result true then .deliver batch else .count batch
    some { s with memory := s.memory.finish record outcome, worker := worker }
  | _, _ => none

-- The worker calls a public member only from a callback.
def step (policy : LoggerPolicy) (metadata : LoggerMetadataPolicy) (s : State) (event : Event) : Option State :=
  match event with
  | .call thread request =>
    if s.call thread = .idle ∧ (thread = .worker → s.worker.inCallback) then
      some (s.startCall thread request)
    else
      none
  | .step thread =>
    (CallPc.step policy s.memory (s.worker = .exited) thread (s.call thread)).map fun (m, pc) =>
      { s with memory := m }.setCall thread pc
  | .work => (WorkerPc.step s.memory s.worker).map fun (m, pc) => { s with memory := m, worker := pc }
  | .backend now attached => s.stepBackend policy metadata now attached
  | .finish outcome => s.stepFinish outcome
  | .spurious condition thread =>
    if s.memory.asleep condition thread then
      some { s with memory := s.memory.setAsleep condition thread false }
    else
      none

end State

def system (policy : LoggerPolicy) (metadata : LoggerMetadataPolicy) : System State Event where
  init := .init
  step := State.step policy metadata

end Vosp.AsyncLogger
