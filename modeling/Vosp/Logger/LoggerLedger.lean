import Vosp.Logger.LoggerLocks

/-!
This module contains where the accepted records of the asynchronous logger are: they have been passed to
the backend, in the order in which they were pushed, or wait in the batch of the worker or in the queue.
-/

namespace Vosp.AsyncLogger

namespace WorkerPc

def batch (pc : WorkerPc) : List LogRecord :=
  match pc with
  | .notifySpace batch | .unlockBatch batch | .deliver batch | .callback _ batch | .count batch => batch
  | _ => []

def current (pc : WorkerPc) : List LogRecord :=
  match pc with
  | .callback record _ => [record]
  | _ => []

def inBatch (pc : WorkerPc) : Bool :=
  match pc with
  | .notifySpace _ | .unlockBatch _ | .deliver _ | .callback _ _ | .count _ | .relock | .drain => true
  | _ => false

def uncounted (pc : WorkerPc) : Nat :=
  match pc with
  | .count _ => 1
  | _ => 0

def exiting (pc : WorkerPc) : Bool :=
  match pc with
  | .exitNotify | .exitUnlock | .exited => true
  | _ => false

end WorkerPc

def failures (finished : List (LogRecord × Outcome)) : Nat := finished.countP fun call => call.2 ≠ .result true

theorem failures_append (finished : List (LogRecord × Outcome)) (record : LogRecord) (outcome : Outcome)
    : failures (finished ++ [(record, outcome)]) =
        failures finished + if outcome = .result true then 0 else 1 := by
  rw [failures, List.countP_append, failures]
  by_cases h : outcome = .result true
  . simp [h]
  . simp [h]

namespace State

variable {policy : LoggerPolicy} {metadata : LoggerMetadataPolicy} {s s' : State} {event : Event} {t u : Thread}

-- A thread that is about to push has seen that the queue is not full, or that the logger is stopping.
def Room (s : State) : Prop :=
  ∀ t record, s.call t = .writeCheck record →
    s.memory.stopping = true ∨ s.memory.queue.length < queueCapacity

structure Ledger (s : State) : Prop where
  accepted : s.memory.history.accepted = s.memory.history.passed ++ s.worker.batch ++ s.memory.queue
  finished : s.memory.history.passed = s.memory.history.finished.map Prod.fst ++ s.worker.current
  failed : s.memory.failedRecords + s.worker.uncounted = failures s.memory.history.finished
  active : s.memory.batchActive = s.worker.inBatch
  capacity : s.memory.queue.length ≤ queueCapacity
  exiting : s.worker.exiting = true → s.memory.stopping = true ∧ s.memory.queue = []
  joined : s.memory.joined = true → s.worker = .exited

theorem holds_writeCheck {record : LogRecord} (h : s.call t = .writeCheck record) : s.holds t .queue = true := by
  rw [holds, h]
  rfl

theorem Room.call (h : s.Room) (ho : s.Owned) {op : Op} {pc : CallPc}
    (hedge : CallEdge policy (s.worker = .exited) t s.memory (s.call t) op pc)
    : (({ s with memory := op.apply t s.memory } : State).setCall t pc).Room := by
  intro u record hu
  by_cases hut : u = t
  . subst hut
    simp only [setCall, Function.update_self] at hu
    subst hu
    revert hedge
    generalize s.call u = before
    intro hedge
    cases hedge with
    | writeTest hroom => exact hroom
  . simp only [setCall, Function.update_of_ne hut] at hu
    -- Nobody else pushes while the thread holds the mutex of the queue.
    have hroom := h u record hu
    have hother : s.call t ≠ .writeCheck record := by
      intro heq
      exact hut (ho.unique (holds_writeCheck hu) (holds_writeCheck heq))
    cases op with
    | push other =>
      have ht : ∃ r, s.call t = .writeCheck r := by
        revert hedge
        generalize s.call t = before
        intro hedge
        cases hedge
        exact ⟨_, rfl⟩
      obtain ⟨r, ht⟩ := ht
      exact absurd (ho.unique (holds_writeCheck hu) (holds_writeCheck ht)) hut
    | stop => exact .inl rfl
    | swap =>
      generalize s.call t = before at hedge
      cases hedge
    | _ => exact hroom

theorem Room.work (h : s.Room) {op : Op} {pc : WorkerPc} (hedge : WorkerEdge s.memory s.worker op pc)
    : ({ s with memory := op.apply .worker s.memory, worker := pc } : State).Room := by
  intro u record hu
  have hroom := h u record hu
  cases op with
  | swap => exact .inr (Nat.zero_lt_succ 1023)
  | push other =>
    revert hedge
    generalize s.worker = before
    nofun
  | stop => exact .inl rfl
  | _ => exact hroom

theorem Room.step (h : s.Room) (ho : s.Owned) (hstep : Step policy metadata s event s') : s'.Room := by
  cases hstep with
  | @start t request hidle hworker =>
    intro u record hu
    by_cases hut : u = t
    . subst hut
      cases request <;> simp [startCall, setCall] at hu
    . rw [startCall_call_of_ne hut] at hu
      have hroom := h u record hu
      cases request <;> exact hroom
  | call hedge => exact h.call ho hedge
  | work hedge => exact h.work hedge
  | _ => exact h

theorem Ledger.call (h : s.Ledger) (hr : s.Room) {op : Op} {pc : CallPc}
    (hedge : CallEdge policy (s.worker = .exited) t s.memory (s.call t) op pc)
    : (({ s with memory := op.apply t s.memory } : State).setCall t pc).Ledger := by
  generalize hpc : s.call t = before at hedge
  cases hedge with
  | @push record hstopping =>
    constructor
    case accepted =>
      have haccepted := congrArg (· ++ [record]) h.accepted
      simp only [List.append_assoc] at haccepted ⊢
      exact haccepted
    case capacity =>
      have hroom : s.memory.queue.length < queueCapacity := by
        rcases hr t record hpc with hstop | hlt
        . rw [hstopping] at hstop
          cases hstop
        . exact hlt
      simp only [setCall, Op.apply, Memory.push, List.length_append, List.length_singleton]
      exact hroom
    case exiting =>
      intro hexiting
      have hstop := (h.exiting hexiting).1
      rw [hstopping] at hstop
      cases hstop
    case finished => exact h.finished
    case failed => exact h.failed
    case active => exact h.active
    case joined => exact h.joined
  | stop =>
    exact ⟨h.accepted, h.finished, h.failed, h.active, h.capacity, fun hexiting => ⟨rfl, (h.exiting hexiting).2⟩,
      h.joined⟩
  | join hexited =>
    exact ⟨h.accepted, h.finished, h.failed, h.active, h.capacity, h.exiting, fun _ => hexited⟩
  | _ => exact ⟨h.accepted, h.finished, h.failed, h.active, h.capacity, h.exiting, h.joined⟩

theorem Ledger.work (h : s.Ledger) {op : Op} {pc : WorkerPc} (hedge : WorkerEdge s.memory s.worker op pc)
    : ({ s with memory := op.apply .worker s.memory, worker := pc } : State).Ledger := by
  obtain ⟨haccepted, hfinished, hfailed, hactive, hcapacity, hexiting, hjoined⟩ := h
  generalize hpc : s.worker = before at *
  cases hedge with
  | swap =>
    constructor
    case accepted =>
      simp only [WorkerPc.batch, Op.apply, List.append_nil] at haccepted ⊢
      exact haccepted
    case capacity => exact Nat.zero_le _
    case finished => exact hfinished
    case failed => exact hfailed
    case active => rfl
    case exiting => exact fun hexiting => absurd hexiting Bool.false_ne_true
    case joined => exact fun hjoin => WorkerPc.noConfusion (hjoined hjoin)
  | leave hqueue hstopping =>
    exact ⟨haccepted, hfinished, hfailed, hactive, hcapacity, fun _ => ⟨hstopping, hqueue⟩,
      fun hjoin => WorkerPc.noConfusion (hjoined hjoin)⟩
  | drain =>
    exact ⟨haccepted, hfinished, hfailed, rfl, hcapacity, fun hexiting => absurd hexiting Bool.false_ne_true,
      fun hjoin => WorkerPc.noConfusion (hjoined hjoin)⟩
  | exit => exact ⟨haccepted, hfinished, hfailed, hactive, hcapacity, hexiting, fun _ => rfl⟩
  | exitNotify =>
    exact ⟨haccepted, hfinished, hfailed, hactive, hcapacity, hexiting,
      fun hjoin => WorkerPc.noConfusion (hjoined hjoin)⟩
  | _ =>
    exact ⟨haccepted, hfinished, hfailed, hactive, hcapacity, fun hexiting => absurd hexiting Bool.false_ne_true,
      fun hjoin => WorkerPc.noConfusion (hjoined hjoin)⟩

theorem Ledger.pass (h : s.Ledger) {record : LogRecord} {batch : List LogRecord}
    (hworker : s.worker = .deliver (record :: batch))
    : ({ s with memory := s.memory.pass record, worker := .callback record batch } : State).Ledger := by
  obtain ⟨haccepted, hfinished, hfailed, hactive, hcapacity, -, hjoined⟩ := h
  rw [hworker] at haccepted hfinished hfailed hactive hjoined
  refine ⟨?_, ?_, hfailed, hactive, hcapacity, nofun, fun hjoin => WorkerPc.noConfusion (hjoined hjoin)⟩
  . simp only [WorkerPc.batch, Memory.pass] at haccepted ⊢
    rw [haccepted]
    simp
  . simp only [WorkerPc.current, Memory.pass, List.append_nil] at hfinished ⊢
    rw [hfinished]

theorem Ledger.finish (h : s.Ledger) {record : LogRecord} {batch : List LogRecord}
    (hworker : s.worker = .callback record batch) (outcome : Outcome)
    : ({ s with
        memory := s.memory.finish record outcome
        worker := if outcome = .result true then .deliver batch else .count batch } : State).Ledger := by
  obtain ⟨haccepted, hfinished, hfailed, hactive, hcapacity, -, hjoined⟩ := h
  rw [hworker] at haccepted hfinished hfailed hactive hjoined
  have hfinished' : s.memory.history.passed = (s.memory.history.finished ++ [(record, outcome)]).map Prod.fst := by
    rw [hfinished, List.map_append]
    rfl
  have hfailed' := failures_append s.memory.history.finished record outcome
  rw [← hfailed] at hfailed'
  split
  . next houtcome =>
    rw [if_pos houtcome] at hfailed'
    exact ⟨haccepted, hfinished'.trans (List.append_nil _).symm, hfailed'.symm, hactive, hcapacity, nofun,
      fun hjoin => WorkerPc.noConfusion (hjoined hjoin)⟩
  . next houtcome =>
    rw [if_neg houtcome] at hfailed'
    exact ⟨haccepted, hfinished'.trans (List.append_nil _).symm, hfailed'.symm, hactive, hcapacity, nofun,
      fun hjoin => WorkerPc.noConfusion (hjoined hjoin)⟩

theorem Ledger.step (h : s.Ledger) (hr : s.Room) (hstep : Step policy metadata s event s') : s'.Ledger := by
  cases hstep with
  | @start t request hidle hworker =>
    cases request <;>
      exact ⟨h.accepted, h.finished, h.failed, h.active, h.capacity, h.exiting, h.joined⟩
  | call hedge => exact h.call hr hedge
  | work hedge => exact h.work hedge
  | filtered hworker => exact (h.pass hworker).finish rfl (.result true)
  | hand hworker =>
    have hpass := h.pass hworker
    exact ⟨hpass.accepted, hpass.finished, hpass.failed, hpass.active, hpass.capacity, hpass.exiting, hpass.joined⟩
  | unattached hworker => exact (h.pass hworker).finish rfl (.result false)
  | finish hworker => exact h.finish hworker _
  | spurious => exact ⟨h.accepted, h.finished, h.failed, h.active, h.capacity, h.exiting, h.joined⟩

end State

end Vosp.AsyncLogger
