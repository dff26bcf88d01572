import Vosp.Logger.BackendBroadcast
import Vosp.Logger.Immediate

/-!
This module contains the asynchronous `Logger` with text sinks: every sink is an immediate `Sink` on a stream of
its own, of which every operation is a step that can fail. Only the worker publishes through the backend, so no other
thread writes to the sinks, but the owner of a stream can let it fail or clear it between two writes.
-/

namespace Vosp

namespace SyncLogger

def CallPc.hands (pc : CallPc) : Option (LogSink × LogEntry) :=
  match pc with
  | .deliver entry _ (sink :: _) _ => some (sink, entry)
  | _ => none

theorem State.Step.target_ne {config : Config} {s s' : State} {event : Event} {call : Call} {entry : LogEntry}
    {selection : Selection} {remaining : List LogSink} {accepted : Bool} (h : s.Step config event s')
    (hcall : s.call call = .inCallback entry selection remaining accepted)
    (hfinish : ∀ answer, event ≠ .finish call answer)
    : call ≠ event.target := by
  rintro rfl
  cases h with
  | start request hidle =>
    rw [Event.target, hidle] at hcall
    cases hcall
  | call hedge =>
    rw [Event.target] at hcall
    rw [hcall] at hedge
    cases hedge
  | accepted | thrown => exact hfinish _ rfl

end SyncLogger

namespace Backend

open SyncLogger (Call CallPc LogSink)

def State.hands (s : State) (event : Event) : Option (LogSink × LogEntry) :=
  match event with
  | .backend (.step call _) => (s.backend.1.call call).hands
  | _ => none

def State.calls (s : State) : List Call := s.ended ++ s.current.toList

variable {policy : LoggerPolicy} {metadata : LoggerMetadataPolicy} {s s' : State} {event : Event} {call : Call}

theorem reachable_sync (hs : (system policy metadata).Reachable s)
    : (SyncLogger.system (config policy metadata)).Reachable s.backend.1 := by
  have hbackend : (SyncLogger.recorded (config policy metadata)).Reachable s.backend := reachable_backend hs
  exact hbackend.of_recording

theorem current_of_hands (hs : (system policy metadata).Reachable s) {offer : LogSink × LogEntry}
    (h : (s.backend.1.call call).hands = some offer)
    : s.current = some call := by
  have hoffers := SyncLogger.State.offering (reachable_backend hs) call
  have hlinked := linked hs
  revert h hoffers
  generalize hpc : s.backend.1.call call = pc
  intro h hoffers
  cases pc with
  | deliver entry selection remaining accepted =>
    rcases List.mem_append.mp (hlinked.all call _ _ hoffers.1) with hended | hcurrent
    . obtain ⟨operation, outcome, hreturned⟩ := hlinked.returned call hended
      rw [hpc] at hreturned
      cases hreturned
    . exact Option.mem_toList.mp hcurrent
  | _ => cases h

theorem logger_step {event : AsyncLogger.Event} (h : s.step policy metadata (.logger event) = some s')
    : s'.backend = s.backend ∧ s'.current = s.current ∧ s'.calls = s.calls := by
  simp only [State.step] at h
  split at h
  . obtain ⟨logger, -, rfl⟩ := Option.map_eq_some_iff.mp h
    exact ⟨rfl, rfl, rfl⟩
  . cases h

theorem backend_step {event : SyncLogger.Event} (h : s.step policy metadata (.backend event) = some s')
    : (backendSystem policy metadata).step s.backend event = some s'.backend ∧ s'.calls = s.calls := by
  simp only [State.step] at h
  split at h
  . obtain ⟨backend, hbackend, h⟩ := Option.bind_eq_some_iff.mp h
    unfold State.stepBackend at h
    split at h
    . split at h
      . next hcurrent =>
        simp only [State.follow] at h
        split at h
        . cases h
          exact ⟨hbackend, rfl⟩
        . obtain ⟨logger, -, rfl⟩ := Option.map_eq_some_iff.mp h
          split
          . refine ⟨hbackend, ?_⟩
            simp [State.calls, hcurrent]
          . exact ⟨hbackend, rfl⟩
      . cases h
        exact ⟨hbackend, rfl⟩
    . cases h
      exact ⟨hbackend, rfl⟩
  . cases h

theorem pass_step (h : s.step policy metadata (.pass call) = some s')
    : s.current = none ∧ ∃ record batch, s.logger.worker = .deliver (record :: batch) ∧
        (backendSystem policy metadata).step s.backend (.call call (.write record.level record.error)) =
          some s'.backend ∧
        s'.calls = s.calls ++ [call] := by
  simp only [State.step, State.pass] at h
  split at h
  . next record batch hworker hcurrent =>
    split at h
    . obtain ⟨backend, hbackend, rfl⟩ := Option.map_eq_some_iff.mp h
      refine ⟨hcurrent, record, batch, hworker, hbackend, ?_⟩
      simp [State.calls, hcurrent]
    . cases h
  . cases h

theorem inCallback_step (h : s.step policy metadata event = some s') (hcallback : s.inCallback = true)
    (hfinish : ∀ call answer, event ≠ .backend (.finish call answer))
    : s'.inCallback = true := by
  obtain ⟨call, entry, selection, remaining, accepted, hcurrent, hpc⟩ := inCallback_iff.mp hcallback
  refine inCallback_iff.mpr ⟨call, entry, selection, remaining, accepted, ?_⟩
  cases event with
  | logger event =>
    obtain ⟨hbackend, hsame, -⟩ := logger_step h
    rw [hbackend, hsame]
    exact ⟨hcurrent, hpc⟩
  | pass other =>
    have hnone := (pass_step h).1
    rw [hcurrent] at hnone
    cases hnone
  | backend event =>
    have hstep := SyncLogger.State.step_cases (SyncLogger.recorded_step (backend_step h).1).1
    have hother := hstep.target_ne hpc fun answer heq => hfinish call answer (congrArg _ heq)
    refine ⟨?_, (hstep.call_of_ne hother).trans hpc⟩
    simp only [State.step] at h
    split at h
    . next hallowed =>
      obtain ⟨backend, hbackend, h⟩ := Option.bind_eq_some_iff.mp h
      unfold State.stepBackend at h
      split at h
      . next other now _ =>
        have hne : s.current ≠ some other := by
          rw [hcurrent]
          exact fun heq => hother (Option.some.inj heq)
        rw [if_neg hne] at h
        cases h
        exact hcurrent
      . cases h
        exact hcurrent
    . cases h

theorem inCallback_of_hands (hs : (system policy metadata).Reachable s) (h : s.step policy metadata event = some s')
    {offer : LogSink × LogEntry} (hhands : s.hands event = some offer)
    : s.inCallback = false ∧ s'.inCallback = true := by
  cases event with
  | logger | pass => cases hhands
  | backend event =>
    cases event with
    | call | finish => cases hhands
    | step call now =>
      have hoffer : (s.backend.1.call call).hands = some offer := hhands
      have hcurrent := current_of_hands hs hoffer
      generalize hpc : s.backend.1.call call = pc at hoffer
      cases pc
      case deliver entry selection remaining accepted =>
        cases remaining with
        | nil => cases hoffer
        | cons sink remaining =>
          refine ⟨?_, inCallback_iff.mpr ⟨call, entry, selection, remaining, accepted, ?_⟩⟩
          . rw [State.inCallback, hcurrent]
            simp only [hpc]
          . simp only [State.step] at h
            split at h
            . obtain ⟨backend, hbackend, h⟩ := Option.bind_eq_some_iff.mp h
              have hafter : backend.1.call call = .inCallback entry selection remaining accepted := by
                obtain ⟨m, hcall⟩ := SyncLogger.call_step hbackend
                rw [hpc] at hcall
                exact (congrArg Prod.snd (Option.some.inj hcall)).symm
              simp only [State.stepBackend, if_pos hcurrent, State.follow, hpc, hafter, report] at h
              cases h
              exact ⟨hcurrent, hafter⟩
            . cases h
      all_goals cases hoffer

end Backend

def ImmediatePc.answer (pc : ImmediatePc) : Option Bool :=
  match pc with
  | .unlock _ result => some result
  | _ => none

namespace TextDelivery

open SyncLogger (LogSink)
open Backend (workerThread)

/--
The logger and its sinks. The worker is in at most one `write` at a time.
-/
structure State where
  logger : Backend.State
  sinks : LogSink → ImmediateState
  -- The sink whose `write` the worker is in.
  active : Option LogSink
  -- What the last `write` has returned.
  answer : Bool

inductive Event where
  | logger (event : Backend.Event)
  | sink (sink : LogSink) (event : ImmediateEvent)

def Event.clears (event : Event) : Bool :=
  match event with
  | .logger _ => false
  | .sink _ event => event.clears

namespace State

def init : State where
  logger := .init
  sinks _ := .init
  active := none
  answer := true

def setSink (s : State) (sink : LogSink) (state : ImmediateState) : State :=
  { s with sinks := Function.update s.sinks sink state }

def write (s : State) (sink : LogSink) (entry : LogEntry) : State :=
  { s.setSink sink ((s.sinks sink).startWrite workerThread entry) with active := some sink }

def writes (s : State) (event : Backend.Event) : State :=
  match s.logger.hands event with
  | some (sink, entry) => s.write sink entry
  | none => s

-- A callback ends with the `write` of the sink, which does not throw.
def allows (s : State) (event : Backend.Event) : Bool :=
  match event with
  | .backend (.finish _ answer) => s.active.isNone && answer = some s.answer
  | _ => true

def stepSink (s : State) (sink : LogSink) (event : ImmediateEvent) : Option State :=
  ((s.sinks sink).step event).map fun state =>
    match event with
    | .step thread _ =>
      match ((s.sinks sink).pc thread).answer with
      | some answer => { s.setSink sink state with active := none, answer := answer }
      | none => s.setSink sink state
    | _ => s.setSink sink state

def step (policy : LoggerPolicy) (metadata : LoggerMetadataPolicy) (s : State) (event : Event) : Option State :=
  match event with
  | .logger event =>
    if s.allows event then
      (s.logger.step policy metadata event).map fun logger => { s.writes event with logger := logger }
    else
      none
  | .sink _ (.write _ _) => none
  | .sink sink event => s.stepSink sink event

end State

def system (policy : LoggerPolicy) (metadata : LoggerMetadataPolicy) : System State Event where
  init := .init
  step := State.step policy metadata

inductive State.Step (policy : LoggerPolicy) (metadata : LoggerMetadataPolicy) (s : State) : Event → State → Prop where
  | logger {event : Backend.Event} {logger : Backend.State} (hallowed : s.allows event = true)
      (hlogger : s.logger.step policy metadata event = some logger)
    : Step policy metadata s (.logger event) { s.writes event with logger := logger }
  | sink {sink : LogSink} {event : ImmediateEvent} {state : ImmediateState}
      (hwrite : ∀ thread entry, event ≠ .write thread entry)
      (hanswer : ∀ thread taken, event = .step thread taken → ((s.sinks sink).pc thread).answer = none)
      (hsink : (s.sinks sink).step event = some state)
    : Step policy metadata s (.sink sink event) (s.setSink sink state)
  | ret {sink : LogSink} {thread : Nat} {taken : Option Nat} {record : Record} {result : Bool}
      (hpc : (s.sinks sink).pc thread = .unlock record result)
    : Step policy metadata s (.sink sink (.step thread taken))
        { s.setSink sink ((s.sinks sink).returnWrite thread record result) with active := none, answer := result }

variable {policy : LoggerPolicy} {metadata : LoggerMetadataPolicy} {s s' : State} {event : Event} {sink : LogSink}

theorem State.stepSink_cases {event : ImmediateEvent} (hwrite : ∀ thread entry, event ≠ .write thread entry)
    (h : s.stepSink sink event = some s')
    : s.Step policy metadata (.sink sink event) s' := by
  obtain ⟨state, hsink, h⟩ := Option.map_eq_some_iff.mp h
  cases event with
  | write thread entry => exact absurd rfl (hwrite thread entry)
  | fail | clear =>
    cases h
    exact .sink hwrite nofun hsink
  | step thread taken =>
    cases hpc : (s.sinks sink).pc thread with
    | unlock record result =>
      simp only [ImmediateState.step, ImmediateState.advance, hpc, Option.some.injEq] at hsink
      simp only [hpc, ImmediatePc.answer] at h
      cases h
      rw [← hsink]
      exact .ret hpc
    | _ =>
      simp only [hpc, ImmediatePc.answer] at h
      cases h
      refine .sink hwrite ?_ hsink
      rintro _ _ ⟨⟩
      rw [hpc]
      rfl

theorem State.step_cases (h : s.step policy metadata event = some s') : s.Step policy metadata event s' := by
  cases event with
  | logger event =>
    simp only [step] at h
    split at h
    . next hallowed =>
      obtain ⟨logger, hlogger, rfl⟩ := Option.map_eq_some_iff.mp h
      exact .logger hallowed hlogger
    . cases h
  | sink sink event =>
    cases event with
    | write => cases h
    | step | fail | clear => exact stepSink_cases nofun h

theorem reachable_logger (hs : (system policy metadata).Reachable s)
    : (Backend.system policy metadata).Reachable s.logger := by
  apply hs.invariant .init
  intro s event s' _ h _ hstep
  cases State.step_cases hstep with
  | logger _ hlogger => exact h.next hlogger
  | sink | ret => exact h

namespace State

theorem setSink_self {state : ImmediateState} : (s.setSink sink state).sinks sink = state := Function.update_self _ _ _

theorem setSink_of_ne {other : LogSink} {state : ImmediateState} (h : other ≠ sink)
    : (s.setSink sink state).sinks other = s.sinks other :=
  Function.update_of_ne h _ _

-- Only the worker writes, and while it is in the `write` of a sink it is in its callback.
structure Busy (s : State) : Prop where
  worker : ∀ sink thread, (s.sinks sink).pc thread ≠ .idle → thread = workerThread ∧ s.active = some sink
  callback : ∀ sink, s.active = some sink → s.logger.inCallback = true

theorem Busy.idle (h : s.Busy) (hactive : s.active = none) (sink : LogSink) (thread : Nat)
    : (s.sinks sink).pc thread = .idle := by
  by_contra hbusy
  have hsink := (h.worker sink thread hbusy).2
  rw [hactive] at hsink
  cases hsink

theorem Busy.none_of_hands (h : s.Busy) (hs : (system policy metadata).Reachable s) {event : Backend.Event}
    {logger : Backend.State} (hlogger : s.logger.step policy metadata event = some logger)
    {offer : LogSink × LogEntry} (hhands : s.logger.hands event = some offer)
    : s.active = none := by
  have hcallback := (Backend.inCallback_of_hands (reachable_logger hs) hlogger hhands).1
  cases hactive : s.active with
  | none => rfl
  | some sink =>
    rw [h.callback sink hactive] at hcallback
    cases hcallback

theorem Busy.logger (h : s.Busy) (hs : (system policy metadata).Reachable s) {event : Backend.Event}
    {logger : Backend.State} (hallowed : s.allows event = true)
    (hlogger : s.logger.step policy metadata event = some logger)
    : Busy { s.writes event with logger := logger } := by
  unfold writes
  split
  . next sink entry hhands =>
    have hidle := h.idle (h.none_of_hands hs hlogger hhands)
    constructor
    case worker =>
      intro other thread hbusy
      simp only [write] at hbusy ⊢
      by_cases hother : other = sink
      . subst hother
        refine ⟨?_, rfl⟩
        rw [setSink_self, ImmediateState.startWrite] at hbusy
        by_contra hthread
        exact hbusy ((ImmediateState.pc_of_ne hthread).trans (hidle other thread))
      . rw [setSink_of_ne hother] at hbusy
        exact absurd (hidle other thread) hbusy
    case callback => exact fun _ _ => (Backend.inCallback_of_hands (reachable_logger hs) hlogger hhands).2
  . constructor
    case worker => exact h.worker
    case callback =>
      intro sink hactive
      apply Backend.inCallback_step hlogger (h.callback sink hactive)
      rintro call answer rfl
      have hnone : s.active.isNone = true := (Bool.and_eq_true_iff.mp hallowed).1
      rw [show s.active = some sink from hactive] at hnone
      cases hnone

theorem Busy.move (h : s.Busy) {event : ImmediateEvent} {state : ImmediateState}
    (hwrite : ∀ thread entry, event ≠ .write thread entry) (hsink : (s.sinks sink).step event = some state)
    : (s.setSink sink state).Busy := by
  constructor
  case worker =>
    intro other thread hbusy
    by_cases hother : other = sink
    . subst hother
      rw [setSink_self] at hbusy
      exact h.worker other thread ((ImmediateState.step_cases hsink).busy_before hwrite hbusy)
    . rw [setSink_of_ne hother] at hbusy
      exact h.worker other thread hbusy
  case callback => exact h.callback

theorem Busy.ret (h : s.Busy) {thread : Nat} {record : Record} {result : Bool}
    (hpc : (s.sinks sink).pc thread = .unlock record result)
    : Busy { s.setSink sink ((s.sinks sink).returnWrite thread record result) with
        active := none
        answer := result } := by
  have hactive := h.worker sink thread (by rw [hpc]; exact ImmediatePc.noConfusion)
  constructor
  case worker =>
    intro other u hbusy
    refine absurd ?_ hbusy
    by_cases hother : other = sink
    . subst hother
      simp only [setSink_self, ImmediateState.returnWrite]
      by_cases hu : u = thread
      . rw [hu, ImmediateState.pc_self]
      . rw [ImmediateState.pc_of_ne hu]
        by_contra hne
        exact hu ((h.worker other u hne).1.trans hactive.1.symm)
    . simp only [setSink_of_ne hother]
      by_contra hne
      have hsame := (h.worker other u hne).2
      rw [hactive.2] at hsame
      exact hother (Option.some.inj hsame).symm
  case callback =>
    intro other hnone
    cases hnone

end State

theorem busy (hs : (system policy metadata).Reachable s) : s.Busy := by
  apply hs.invariant
  . exact ⟨fun _ _ hne => absurd rfl hne, nofun⟩
  . intro s event s' hs h _ hstep
    cases State.step_cases hstep with
    | logger hallowed hlogger => exact h.logger hs hallowed hlogger
    | sink hwrite _ hsink => exact h.move hwrite hsink
    | ret hpc => exact h.ret hpc

def Event.Keeps (P : ImmediateEvent → Prop) (event : Event) : Prop :=
  match event with
  | .logger _ => True
  | .sink _ event => P event

end TextDelivery

end Vosp
