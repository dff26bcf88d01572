import Vosp.Logger.LoggerDelivery
import Vosp.Logger.Broadcast

/-!
This module contains the asynchronous `Logger` together with its `backend_`, which is a parallel logger. The
worker publishes every record of its batch with a call of `backend_.write_owned`; `attach` and `detach` of the
asynchronous logger are those of the backend. What the environment chooses in the model of the asynchronous
logger is here what the backend does.
-/

namespace Vosp.Backend

abbrev BackendState := SyncLogger.State × List SyncLogger.Event

structure State where
  logger : AsyncLogger.State
  backend : BackendState
  -- The call of `write_owned` that the worker is in, and the time that this call has read.
  current : Option SyncLogger.Call
  now : TimePoint
  -- The calls of `write_owned` that have ended.
  ended : List SyncLogger.Call

inductive Event where
  | logger (event : AsyncLogger.Event)
  | backend (event : SyncLogger.Event)
  -- The worker takes the next record of its batch and calls `write_owned`.
  | pass (call : SyncLogger.Call)

def workerThread : Nat := 0

def config (policy : LoggerPolicy) (metadata : LoggerMetadataPolicy) : SyncLogger.Config :=
  ⟨policy, metadata, false⟩

def backendSystem (policy : LoggerPolicy) (metadata : LoggerMetadataPolicy)
    : System BackendState SyncLogger.Event :=
  SyncLogger.recorded (config policy metadata)

def outcome (result : Option Bool) : AsyncLogger.Outcome :=
  match result with
  | some accepted => .result accepted
  | none => .thrown

def report (now : TimePoint) (before after : SyncLogger.CallPc) : Option AsyncLogger.Event :=
  match before, after with
  | .write _ _, .returned _ _ | .readUnlock _ _, .returned _ _ => some (.backend now false)
  | .load _, .callbackLock _ _ | .readUnlock _ _, .callbackLock _ _ => some (.backend now true)
  | .callbackUnlock _ result, .returned _ _ => some (.finish (outcome result))
  | _, _ => none

namespace State

def init : State where
  logger := .init
  backend := (.init, [])
  current := none
  now := 0
  ended := []

def inCallback (s : State) : Bool :=
  match s.current with
  | some call =>
    match s.backend.1.call call with
    | .inCallback _ _ _ _ => true
    | _ => false
  | none => false

-- The worker calls the logger only from a callback.
def allowsLogger (s : State) (event : AsyncLogger.Event) : Bool :=
  match event with
  | .backend _ _ | .finish _ => false
  | .call thread _ => thread ≠ .worker || s.inCallback
  | _ => true

-- Only the worker publishes through the backend, and a callback ends after the calls that it has made.
def allowsBackend (s : State) (event : SyncLogger.Event) : Bool :=
  match event with
  | .call _ (.write _ _) => false
  | .call call _ => call.thread ≠ workerThread || s.inCallback
  | .finish _ _ => s.logger.call .worker = .idle
  | .step _ _ => true

def follow (policy : LoggerPolicy) (metadata : LoggerMetadataPolicy) (s : State) (call : SyncLogger.Call)
    (now : TimePoint) (backend : BackendState) : Option State :=
  let before := s.backend.1.call call
  let after := backend.1.call call
  let now :=
    match before with
    | .stamp _ _ => now
    | _ => s.now
  match report now before after with
  | none => some { s with backend := backend, now := now }
  | some event =>
    (s.logger.step policy metadata event).map fun logger =>
      match after with
      | .returned _ _ =>
        { s with logger := logger, backend := backend, now := now, current := none, ended := s.ended ++ [call] }
      | _ => { s with logger := logger, backend := backend, now := now }

def stepBackend (policy : LoggerPolicy) (metadata : LoggerMetadataPolicy) (s : State) (event : SyncLogger.Event)
    (backend : BackendState) : Option State :=
  match event with
  | .step call now =>
    if s.current = some call then s.follow policy metadata call now backend else some { s with backend := backend }
  | _ => some { s with backend := backend }

def pass (policy : LoggerPolicy) (metadata : LoggerMetadataPolicy) (s : State) (call : SyncLogger.Call)
    : Option State :=
  match s.logger.worker, s.current with
  | .deliver (record :: _), none =>
    if call.thread = workerThread then
      let event := .call call (.write record.level record.error)
      ((backendSystem policy metadata).step s.backend event).map fun backend =>
        { s with backend := backend, current := some call }
    else
      none
  | _, _ => none

def step (policy : LoggerPolicy) (metadata : LoggerMetadataPolicy) (s : State) (event : Event) : Option State :=
  match event with
  | .logger event =>
    if s.allowsLogger event then
      (s.logger.step policy metadata event).map fun logger => { s with logger := logger }
    else
      none
  | .backend event =>
    if s.allowsBackend event then
      ((backendSystem policy metadata).step s.backend event).bind (s.stepBackend policy metadata event)
    else
      none
  | .pass call => s.pass policy metadata call

end State

def system (policy : LoggerPolicy) (metadata : LoggerMetadataPolicy) : System State Event where
  init := .init
  step := State.step policy metadata

inductive State.Step (policy : LoggerPolicy) (metadata : LoggerMetadataPolicy) (s : State) : State → Prop where
  | logger {event : AsyncLogger.Event} {logger : AsyncLogger.State} (hallowed : s.allowsLogger event = true)
      (hlogger : s.logger.step policy metadata event = some logger)
    : Step policy metadata s { s with logger := logger }
  | pass {record : AsyncLogger.LogRecord} {batch : List AsyncLogger.LogRecord} {call : SyncLogger.Call}
      {backend : BackendState} (hworker : s.logger.worker = .deliver (record :: batch))
      (hcurrent : s.current = none)
      (hbackend : (backendSystem policy metadata).step s.backend (.call call (.write record.level record.error)) =
        some backend)
    : Step policy metadata s { s with backend := backend, current := some call }
  -- Somebody else, or a callback of the current call, goes on.
  | other {event : SyncLogger.Event} {backend : BackendState}
      (hallowed : s.allowsBackend event = true)
      (hother : ∀ call now, event = .step call now → s.current ≠ some call)
      (hbackend : (backendSystem policy metadata).step s.backend event = some backend)
    : Step policy metadata s { s with backend := backend }
  | advance {call : SyncLogger.Call} {now now' : TimePoint} {backend : BackendState}
      (hcurrent : s.current = some call)
      (hbackend : (backendSystem policy metadata).step s.backend (.step call now) = some backend)
      (hreport : report now' (s.backend.1.call call) (backend.1.call call) = none)
    : Step policy metadata s { s with backend := backend, now := now' }
  | select {call : SyncLogger.Call} {now now' : TimePoint} {backend : BackendState}
      {event : AsyncLogger.Event} {logger : AsyncLogger.State} (hcurrent : s.current = some call)
      (hbackend : (backendSystem policy metadata).step s.backend (.step call now) = some backend)
      (hreport : report now' (s.backend.1.call call) (backend.1.call call) = some event)
      (hlogger : s.logger.step policy metadata event = some logger)
      (hafter : ∀ operation outcome, backend.1.call call ≠ .returned operation outcome)
    : Step policy metadata s { s with logger := logger, backend := backend, now := now' }
  | finish {call : SyncLogger.Call} {now now' : TimePoint} {backend : BackendState}
      {event : AsyncLogger.Event} {logger : AsyncLogger.State} {operation : SyncLogger.Operation}
      {outcome : SyncLogger.Outcome} (hcurrent : s.current = some call)
      (hbackend : (backendSystem policy metadata).step s.backend (.step call now) = some backend)
      (hreport : report now' (s.backend.1.call call) (backend.1.call call) = some event)
      (hlogger : s.logger.step policy metadata event = some logger)
      (hafter : backend.1.call call = .returned operation outcome)
    : Step policy metadata s
        { s with logger := logger, backend := backend, now := now', current := none, ended := s.ended ++ [call] }

theorem State.step_cases {policy : LoggerPolicy} {metadata : LoggerMetadataPolicy} {s s' : State} {event : Event}
    (h : s.step policy metadata event = some s')
    : s.Step policy metadata s' := by
  cases event with
  | logger event =>
    simp only [step] at h
    split at h
    . next hallowed =>
      obtain ⟨logger, hlogger, rfl⟩ := Option.map_eq_some_iff.mp h
      exact .logger hallowed hlogger
    . cases h
  | pass call =>
    simp only [step, pass] at h
    split at h
    . next hworker hcurrent =>
      split at h
      . obtain ⟨backend, hbackend, rfl⟩ := Option.map_eq_some_iff.mp h
        exact .pass hworker hcurrent hbackend
      . cases h
    . cases h
  | backend event =>
    simp only [step] at h
    split at h
    . next hallowed =>
      obtain ⟨backend, hbackend, h⟩ := Option.bind_eq_some_iff.mp h
      unfold stepBackend at h
      split at h
      . next call now =>
        split at h
        . next hcurrent =>
          simp only [follow] at h
          split at h
          . next hreport =>
            cases h
            exact .advance hcurrent hbackend hreport
          . next hreport =>
            obtain ⟨logger, hlogger, rfl⟩ := Option.map_eq_some_iff.mp h
            split
            . next hafter => exact .finish hcurrent hbackend hreport hlogger hafter
            . next hafter => exact .select hcurrent hbackend hreport hlogger hafter
        . next hcurrent =>
          cases h
          apply Step.other hallowed ?_ hbackend
          intro call' now' heq
          cases heq
          exact hcurrent
      . next hother =>
        cases h
        exact .other hallowed (fun call now heq => absurd heq (hother call now)) hbackend
    . cases h

end Vosp.Backend
