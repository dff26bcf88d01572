import Vosp.Lib.Mutex
import Vosp.Logger.AsyncLogger

/-!
This module says once what a step of the asynchronous logger can do: the operation that it performs on the
shared state and the program point at which it continues.
-/

namespace Vosp.AsyncLogger

inductive Op where
  | read
  | acquire (mutex : Mutex)
  | release (mutex : Mutex)
  | sleep (condition : Condition)
  | notify (condition : Condition)
  | push (record : LogRecord)
  | stop
  | join
  | returnWrite (record : LogRecord) (result : Bool)
  | swap
  | drain
  | fail

def Op.apply (thread : Thread) (m : Memory) (op : Op) : Memory :=
  match op with
  | .read => m
  | .acquire mutex => { m with owner := Function.update m.owner mutex (some thread) }
  | .release mutex => m.release mutex
  | .sleep condition => m.sleep condition thread
  | .notify condition => m.notify condition
  | .push record => m.push record
  | .stop => { m with stopping := true }
  | .join => { m with joined := true }
  | .returnWrite record result => m.returnWrite record result
  | .swap => { m with queue := [], batchActive := true }
  | .drain => { m with batchActive := false }
  | .fail => { m with failedRecords := m.failedRecords + 1 }

inductive CallEdge (policy : LoggerPolicy) (exited : Prop) (t : Thread) (m : Memory)
    : CallPc → Op → CallPc → Prop where
  | accept (hpolicy : policy record.level = true)
    : CallEdge policy exited t m (.write record) .read (.writeLock record)
  | filter (hpolicy : policy record.level = false)
    : CallEdge policy exited t m (.write record) .read (.wrote record true)
  | writeLock (hfree : m.owner .queue = none)
    : CallEdge policy exited t m (.writeLock record) (.acquire .queue) (.writeTest record)
  | writeTest (hroom : m.stopping = true ∨ m.queue.length < queueCapacity)
    : CallEdge policy exited t m (.writeTest record) .read (.writeCheck record)
  | writeSleep (hstopping : m.stopping = false) (hfull : queueCapacity ≤ m.queue.length)
    : CallEdge policy exited t m (.writeTest record) (.sleep .space) (.writeSleep record)
  | writeWake (hawake : m.asleep .space t = false)
    : CallEdge policy exited t m (.writeSleep record) .read (.writeLock record)
  | refuse (hstopping : m.stopping = true)
    : CallEdge policy exited t m (.writeCheck record) .read (.writeUnlock record false)
  | push (hstopping : m.stopping = false)
    : CallEdge policy exited t m (.writeCheck record) (.push record) (.writeNotify record)
  | writeNotify
    : CallEdge policy exited t m (.writeNotify record) (.notify .records) (.writeUnlock record true)
  | writeUnlock
    : CallEdge policy exited t m (.writeUnlock record result) (.release .queue) (.wrote record result)
  | flushLock (hfree : m.owner .queue = none)
    : CallEdge policy exited t m .flushLock (.acquire .queue) .flushTest
  | flushTest (hqueue : m.queue = []) (hbatch : m.batchActive = false)
    : CallEdge policy exited t m .flushTest .read .flushUnlock
  | flushSleep (hbusy : m.queue ≠ [] ∨ m.batchActive = true)
    : CallEdge policy exited t m .flushTest (.sleep .drained) .flushSleep
  | flushWake (hawake : m.asleep .drained t = false)
    : CallEdge policy exited t m .flushSleep .read .flushLock
  | flushUnlock : CallEdge policy exited t m .flushUnlock (.release .queue) .flushed
  | shutdownLock (hfree : m.owner .shutdown = none)
    : CallEdge policy exited t m .shutdownLock (.acquire .shutdown) .stopLock
  | stopLock (hfree : m.owner .queue = none)
    : CallEdge policy exited t m .stopLock (.acquire .queue) .stop
  | stop : CallEdge policy exited t m .stop .stop .notifyRecords
  | notifyRecords : CallEdge policy exited t m .notifyRecords (.notify .records) .notifySpace
  | notifySpace : CallEdge policy exited t m .notifySpace (.notify .space) .stopUnlock
  | stopUnlock : CallEdge policy exited t m .stopUnlock (.release .queue) .join
  | skipJoin (hskip : m.joined = true ∨ t = .worker)
    : CallEdge policy exited t m .join .read .shutdownUnlock
  | join (hexited : exited) : CallEdge policy exited t m .join .join .shutdownUnlock
  | shutdownUnlock : CallEdge policy exited t m .shutdownUnlock (.release .shutdown) .shutDown
  | wrote : CallEdge policy exited t m (.wrote record result) (.returnWrite record result) .idle
  | flushed : CallEdge policy exited t m .flushed .read .idle
  | shutDown : CallEdge policy exited t m .shutDown .read .idle

inductive WorkerEdge (m : Memory) : WorkerPc → Op → WorkerPc → Prop where
  | lock (hfree : m.owner .queue = none) : WorkerEdge m .lock (.acquire .queue) .test
  | test (hready : m.stopping = true ∨ m.queue ≠ []) : WorkerEdge m .test .read .decide
  | sleep (hstopping : m.stopping = false) (hqueue : m.queue = [])
    : WorkerEdge m .test (.sleep .records) .sleep
  | wake (hawake : m.asleep .records .worker = false) : WorkerEdge m .sleep .read .lock
  | leave (hqueue : m.queue = []) (hstopping : m.stopping = true)
    : WorkerEdge m .decide .read .exitNotify
  | swap : WorkerEdge m .decide .swap (.notifySpace m.queue)
  | exitNotify : WorkerEdge m .exitNotify (.notify .drained) .exitUnlock
  | exit : WorkerEdge m .exitUnlock (.release .queue) .exited
  | notifySpace : WorkerEdge m (.notifySpace batch) (.notify .space) (.unlockBatch batch)
  | unlockBatch : WorkerEdge m (.unlockBatch batch) (.release .queue) (.deliver batch)
  | delivered : WorkerEdge m (.deliver []) .read .relock
  | count : WorkerEdge m (.count batch) .fail (.deliver batch)
  | relock (hfree : m.owner .queue = none) : WorkerEdge m .relock (.acquire .queue) .drain
  | drain : WorkerEdge m .drain .drain .notifyDrained
  | notifyDrained (hqueue : m.queue = []) : WorkerEdge m .notifyDrained (.notify .drained) .unlock
  | skipNotify (hqueue : m.queue ≠ []) : WorkerEdge m .notifyDrained .read .unlock
  | unlock : WorkerEdge m .unlock (.release .queue) .lock

theorem acquire_eq_some {m m' : Memory} {mutex : Mutex} {t : Thread}
    : m.acquire mutex t = some m' ↔ m.owner mutex = none ∧ (Op.acquire mutex).apply t m = m' := by
  unfold Memory.acquire
  split
  . next hfree => simp [hfree, Op.apply]
  . next hheld => simp [hheld]

theorem call_edge {policy : LoggerPolicy} {m m' : Memory} {exited : Bool} {t : Thread} {pc pc' : CallPc}
    (h : CallPc.step policy m exited t pc = some (m', pc'))
    : ∃ op, CallEdge policy (exited = true) t m pc op pc' ∧ m' = op.apply t m := by
  cases pc <;> simp only [CallPc.step] at h
  case idle => cases h
  case write record =>
    cases h
    split
    . next hpolicy => exact ⟨_, .accept hpolicy, rfl⟩
    . next hpolicy => exact ⟨_, .filter (Bool.not_eq_true _ ▸ hpolicy), rfl⟩
  case writeLock | flushLock | shutdownLock | stopLock =>
    obtain ⟨m₁, hacquire, hpair⟩ := Option.map_eq_some_iff.mp h
    obtain ⟨hfree, rfl⟩ := acquire_eq_some.mp hacquire
    cases hpair
    exact ⟨_, by constructor; exact hfree, rfl⟩
  case writeTest record =>
    split at h
    . next hroom =>
      cases h
      exact ⟨_, .writeTest hroom, rfl⟩
    . next hfull =>
      cases h
      rw [not_or, Bool.not_eq_true, Nat.not_lt] at hfull
      exact ⟨_, .writeSleep hfull.1 hfull.2, rfl⟩
  case writeSleep record =>
    split at h
    . cases h
    . next hawake =>
      cases h
      exact ⟨_, .writeWake (Bool.not_eq_true _ ▸ hawake), rfl⟩
  case writeCheck record =>
    split at h
    . next hstopping =>
      cases h
      exact ⟨_, .refuse hstopping, rfl⟩
    . next hstopping =>
      cases h
      exact ⟨_, .push (Bool.not_eq_true _ ▸ hstopping), rfl⟩
  case flushTest =>
    split at h
    . next hready =>
      cases h
      exact ⟨_, .flushTest (List.isEmpty_iff.mp hready.1) (Bool.not_eq_true _ ▸ hready.2), rfl⟩
    . next hbusy =>
      cases h
      rw [not_and_or, not_not, List.isEmpty_iff] at hbusy
      exact ⟨_, .flushSleep hbusy, rfl⟩
  case flushSleep =>
    split at h
    . cases h
    . next hawake =>
      cases h
      exact ⟨_, .flushWake (Bool.not_eq_true _ ▸ hawake), rfl⟩
  case join =>
    split at h
    . next hskip =>
      cases h
      exact ⟨_, .skipJoin hskip, rfl⟩
    . split at h
      . next hexited =>
        cases h
        exact ⟨_, .join hexited, rfl⟩
      . cases h
  all_goals
    cases h
    exact ⟨_, by constructor, rfl⟩

theorem work_edge {m m' : Memory} {pc pc' : WorkerPc} (h : WorkerPc.step m pc = some (m', pc'))
    : ∃ op, WorkerEdge m pc op pc' ∧ m' = op.apply .worker m := by
  cases pc <;> simp only [WorkerPc.step] at h
  case lock | relock =>
    obtain ⟨m₁, hacquire, hpair⟩ := Option.map_eq_some_iff.mp h
    obtain ⟨hfree, rfl⟩ := acquire_eq_some.mp hacquire
    cases hpair
    exact ⟨_, by constructor; exact hfree, rfl⟩
  case test =>
    split at h
    . next hready =>
      cases h
      rw [List.isEmpty_iff] at hready
      exact ⟨_, .test hready, rfl⟩
    . next hidle =>
      cases h
      rw [not_or, Bool.not_eq_true, not_not, List.isEmpty_iff] at hidle
      exact ⟨_, .sleep hidle.1 hidle.2, rfl⟩
  case sleep =>
    split at h
    . cases h
    . next hawake =>
      cases h
      exact ⟨_, .wake (Bool.not_eq_true _ ▸ hawake), rfl⟩
  case decide =>
    split at h
    . next hleave =>
      cases h
      exact ⟨_, .leave (List.isEmpty_iff.mp hleave.1) hleave.2, rfl⟩
    . cases h
      exact ⟨_, .swap, rfl⟩
  case deliver batch =>
    cases batch with
    | nil =>
      cases h
      exact ⟨_, .delivered, rfl⟩
    | cons => cases h
  case notifyDrained =>
    cases h
    split
    . next hqueue => exact ⟨_, .notifyDrained (List.isEmpty_iff.mp hqueue), rfl⟩
    . next hqueue => exact ⟨_, .skipNotify (fun hnil => hqueue (List.isEmpty_iff.mpr hnil)), rfl⟩
  case exited | callback => cases h
  all_goals
    cases h
    exact ⟨_, by constructor, rfl⟩

namespace State

def entryOf (metadata : LoggerMetadataPolicy) (now : TimePoint) (record : LogRecord) : LogEntry where
  timestamp := metadata.timestamp now
  threadId := metadata.threadId Thread.worker.id
  level := record.level
  error := record.error

inductive Step (policy : LoggerPolicy) (metadata : LoggerMetadataPolicy) (s : State) : Event → State → Prop where
  | start (hidle : s.call t = .idle) (hworker : t = .worker → s.worker.inCallback = true)
    : Step policy metadata s (.call t request) (s.startCall t request)
  | call (hedge : CallEdge policy (s.worker = .exited) t s.memory (s.call t) op pc)
    : Step policy metadata s (.step t) ({ s with memory := op.apply t s.memory }.setCall t pc)
  | work (hedge : WorkerEdge s.memory s.worker op pc)
    : Step policy metadata s .work { s with memory := op.apply .worker s.memory, worker := pc }
  | filtered (hworker : s.worker = .deliver (record :: batch)) (hpolicy : policy record.level = false)
    : Step policy metadata s (.backend now attached)
        { s with memory := (s.memory.pass record).finish record (.result true), worker := .deliver batch }
  | hand (hworker : s.worker = .deliver (record :: batch)) (hpolicy : policy record.level = true)
    : Step policy metadata s (.backend now true)
        { s with
          memory := (s.memory.pass record).hand
            ⟨record, entryOf metadata now record, (s.call record.thread).record = some record⟩
          worker := .callback record batch }
  | unattached (hworker : s.worker = .deliver (record :: batch)) (hpolicy : policy record.level = true)
    : Step policy metadata s (.backend now false)
        { s with memory := (s.memory.pass record).finish record (.result false), worker := .count batch }
  | finish (hworker : s.worker = .callback record batch) (hidle : s.call .worker = .idle)
    : Step policy metadata s (.finish outcome)
        { s with
          memory := s.memory.finish record outcome
          worker := if outcome = .result true then .deliver batch else .count batch }
  | spurious (hasleep : s.memory.asleep condition t = true)
    : Step policy metadata s (.spurious condition t)
        { s with memory := s.memory.setAsleep condition t false }

theorem step_cases {policy : LoggerPolicy} {metadata : LoggerMetadataPolicy} {s s' : State} {event : Event}
    (h : s.step policy metadata event = some s')
    : Step policy metadata s event s' := by
  cases event <;> simp only [step] at h
  case call t request =>
    split at h
    . next hstart =>
      cases h
      exact .start hstart.1 hstart.2
    . cases h
  case step t =>
    obtain ⟨⟨m, pc⟩, hcall, rfl⟩ := Option.map_eq_some_iff.mp h
    obtain ⟨op, hedge, rfl⟩ := call_edge hcall
    rw [decide_eq_true_eq] at hedge
    exact .call hedge
  case work =>
    obtain ⟨⟨m, pc⟩, hwork, rfl⟩ := Option.map_eq_some_iff.mp h
    obtain ⟨op, hedge, rfl⟩ := work_edge hwork
    exact .work hedge
  case backend now attached =>
    unfold stepBackend at h
    split at h
    . next record batch hworker =>
      split at h
      . next hpolicy =>
        cases h
        exact .filtered hworker (Bool.not_eq_true _ ▸ hpolicy)
      . next hpolicy =>
        rw [not_not] at hpolicy
        split at h
        . next hattached =>
          cases h
          subst hattached
          exact .hand hworker hpolicy
        . next hattached =>
          cases h
          rw [Bool.not_eq_true] at hattached
          subst hattached
          exact .unattached hworker hpolicy
    . cases h
  case finish outcome =>
    unfold stepFinish at h
    split at h
    . next record batch hworker hidle =>
      cases h
      exact .finish hworker hidle
    . cases h
  case spurious condition t =>
    split at h
    . next hasleep =>
      cases h
      exact .spurious hasleep
    . cases h

end State

end Vosp.AsyncLogger
