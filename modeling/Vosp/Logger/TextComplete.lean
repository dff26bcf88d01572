import Vosp.Logger.TextDelivery

/-!
This module proves what is in the streams of the asynchronous logger with text sinks. What the worker has handed
to a sink is one list for all calls of `write_owned`. The stream has a prefix of the line of each of these records,
and the whole line where `write` has returned true.
-/

namespace Vosp

namespace SyncLogger

variable {config : Config} {call other : Call} {sink : LogSink}

theorem Operation.mem_run {list : List SinkSlot} {operation : Operation} (h : operation ≠ .detach sink)
    (hmem : sink ∈ list.map SinkSlot.sink)
    : sink ∈ (operation.run list).2.map SinkSlot.sink := by
  unfold run
  split
  . exact hmem
  . split
    . exact hmem
    . rw [List.map_append]
      exact List.mem_append_left _ hmem
  . next other =>
    obtain ⟨slot, hslot, rfl⟩ := List.mem_map.mp hmem
    apply List.mem_map_of_mem
    rw [List.mem_filter]
    refine ⟨hslot, decide_eq_true ?_⟩
    rintro rfl
    exact h rfl
  . exact hmem

theorem Operation.mem_run_attach (list : List SinkSlot) (slot : SinkSlot)
    : slot.sink ∈ ((Operation.attach (some slot)).run list).2.map SinkSlot.sink := by
  rw [run]
  split
  . assumption
  . rw [List.map_append]
    exact List.mem_append_right _ (List.mem_singleton_self _)

namespace State

/--
The sink was attached before the first record was published, and no `detach` of it has taken effect.
-/
structure Attached (s : State) (log : List Event) (sink : LogSink) : Prop where
  before : ∃ call owner, s.call call = .returned (.attach (some ⟨sink, owner⟩)) (.result true) ∧
    ∀ other level error, requestOf log other = some (.write level error) →
      s.memory.history.last call ≤ s.memory.history.first other
  kept : ∀ entry ∈ s.memory.history.log, entry.operation ≠ .detach sink

theorem Attached.selected {s : State} {log : List Event} (h : s.Attached log sink)
    (hs : (system config).Reachable s) {operation : Operation} {selection : Selection} {result : Option Bool}
    (hcall : s.call other = .returned operation (.wrote selection result)) {level : Level} {error : Error}
    (hrequest : requestOf log other = some (.write level error))
    : sink ∈ selection.slots.map SinkSlot.sink := by
  obtain ⟨call, owner, hattach, hbefore⟩ := h.before
  have hv := valid hs
  obtain ⟨final, hfinal⟩ := hv.consistent
  have hprogress : (s.call call).progress = .returned (.attach (some ⟨sink, owner⟩)) (.result true) := by
    rw [hattach]
    rfl
  obtain ⟨list, ⟨i, -, hi, hentry, hlist, -⟩, -⟩ := tookEffect hv.logged hfinal.attached hprogress
  obtain ⟨⟨j, hj, -, -, hselected, -⟩, -⟩ := wrote hs hcall
  have hij : i < j := hi.trans_le ((hbefore other level error hrequest).trans hj)
  -- The log between the two instants begins with the `attach`.
  have hlength : i < s.memory.history.log.length := (List.getElem?_eq_some_iff.mp hentry).1
  have hget := (List.getElem?_eq_some_iff.mp hentry).2
  have hsplit : s.memory.history.log.take j =
      s.memory.history.log.take i ++ (s.memory.history.log.take j).drop i := by
    conv_lhs => rw [← List.take_append_drop i (s.memory.history.log.take j)]
    rw [List.take_take, Nat.min_eq_left hij.le]
  have hrest : (s.memory.history.log.take j).drop i = ⟨call, .attach (some ⟨sink, owner⟩), .result true⟩ ::
      (s.memory.history.log.take j).drop (i + 1) := by
    rw [List.drop_eq_getElem_cons (by rw [List.length_take]; omega), List.getElem_take, hget]
  rw [hsplit, Linear.replay_append, hlist, Option.bind_some, hrest] at hselected
  obtain ⟨-, hafter⟩ := Linear.replay_cons hselected
  apply Linear.replay_keeps (I := fun list => sink ∈ list.map SinkSlot.sink) hafter
  . intro entry hmem list hsink
    have hkept := h.kept entry (List.mem_of_mem_take (List.mem_of_mem_drop hmem))
    exact Operation.mem_run hkept hsink
  . exact Operation.mem_run_attach list ⟨sink, owner⟩

end State

namespace State

variable {s s' : State} {event : Event}

theorem Step.callbacks_of_ne (h : Step config s event s') (hother : ∀ now, event ≠ .step call now)
    : s'.memory.history.callbacks call = s.memory.history.callbacks call := by
  cases h with
  | @call other _ _ now hedge =>
    apply hedge.callbacks_of_ne
    rintro rfl
    exact hother now rfl
  | _ => rfl

end State

end SyncLogger

namespace Backend

open SyncLogger (Call CallPc LogSink requestOf)

variable {policy : LoggerPolicy} {metadata : LoggerMetadataPolicy} {s s' : State} {event : Event} {call : Call}

def State.handed (s : State) : List (LogSink × LogEntry) := s.calls.flatMap s.backend.1.memory.history.callbacks

theorem log_step (h : s.step policy metadata event = some s')
    : SyncLogger.answersOf s'.backend.2 call = SyncLogger.answersOf s.backend.2 call ++
        match event with
        | .backend event => (event.answer call).toList
        | _ => [] := by
  cases event with
  | logger event =>
    rw [(logger_step h).1]
    exact (List.append_nil _).symm
  | pass other =>
    obtain ⟨-, record, batch, -, hbackend, -⟩ := pass_step h
    rw [(SyncLogger.recorded_step hbackend).2, SyncLogger.answersOf_append]
    rfl
  | backend event => rw [(SyncLogger.recorded_step (backend_step h).1).2, SyncLogger.answersOf_append]

end Backend

def LogEntry.printed (entry : LogEntry) : LogEntry where
  level := entry.level
  error := entry.error

def AsyncLogger.LogRecord.entry (record : LogRecord) : LogEntry where
  level := record.level
  error := record.error

namespace ImmediateState

variable {s s' : ImmediateState} {event : ImmediateEvent} {entries : List LogEntry}

def Accepted (s : ImmediateState) : Prop := ∀ written ∈ s.history.written, written.result = true

theorem Step.accepted_before (h : Step s event s') (haccepted : s'.Accepted) : s.Accepted := by
  intro written hmem
  apply haccepted written
  cases h with
  | ret => exact List.mem_append_left _ hmem
  | start | lock | accept | viewed | test | fail | clear => exact hmem

end ImmediateState

namespace TextDelivery

open SyncLogger (LogSink answersOf)
open Backend (workerThread)

variable {policy : LoggerPolicy} {metadata : LoggerMetadataPolicy} {s s' : State} {sink : LogSink}

def handedTo (logger : Backend.State) (sink : LogSink) : List LogEntry :=
  (logger.handed.filter fun offer => offer.1 = sink).map Prod.snd

theorem handedTo_append {logger logger' : Backend.State} {offer : LogSink × LogEntry}
    (h : logger'.handed = logger.handed ++ [offer]) (sink : LogSink)
    : handedTo logger' sink = handedTo logger sink ++ if offer.1 = sink then [offer.2] else [] := by
  rw [handedTo, h, List.filter_append, List.map_append, handedTo]
  congr 1
  split <;> simp [*]

structure State.Taking (s : State) (sink : LogSink) : Prop where
  entries : (s.sinks sink).history.calls.map Record.entry = handedTo s.logger sink
  producer : ∀ record ∈ (s.sinks sink).history.calls, record.producer = some workerThread

theorem State.Taking.writes (h : ∀ sink, s.Taking sink) {event : Backend.Event} {logger : Backend.State}
    (hhanded : logger.handed = s.logger.handed ++ (s.logger.hands event).toList) (sink : LogSink)
    : State.Taking { s.writes event with logger := logger } sink := by
  unfold State.writes
  cases hhands : s.logger.hands event with
  | none =>
    rw [hhands, Option.toList_none, List.append_nil] at hhanded
    refine ⟨?_, (h sink).producer⟩
    rw [handedTo, hhanded]
    exact (h sink).entries
  | some offer =>
    obtain ⟨other, entry⟩ := offer
    rw [hhands] at hhanded
    have happend := handedTo_append hhanded sink
    by_cases hother : sink = other
    . subst hother
      constructor
      case entries =>
        simp only [State.write, State.setSink_self, ImmediateState.startWrite, ImmediateState.setPc, List.map_append,
          List.map_singleton, happend, (h sink).entries, ↓reduceIte]
      case producer =>
        intro record hmem
        simp only [State.write, State.setSink_self] at hmem
        rcases List.mem_append.mp hmem with hold | hnew
        . exact (h sink).producer record hold
        . rw [List.mem_singleton.mp hnew]
    . rw [if_neg (Ne.symm hother), List.append_nil] at happend
      constructor
      case entries =>
        simp only [State.write, State.setSink_of_ne hother, happend]
        exact (h sink).entries
      case producer =>
        simp only [State.write, State.setSink_of_ne hother]
        exact (h sink).producer

theorem State.Taking.setSink (h : ∀ sink, s.Taking sink) {state : ImmediateState}
    (hcalls : state.history.calls = (s.sinks sink).history.calls) (other : LogSink)
    : (s.setSink sink state).Taking other := by
  by_cases hother : other = sink
  . subst hother
    refine ⟨?_, ?_⟩
    all_goals rw [setSink_self, hcalls]
    . exact (h other).entries
    . exact (h other).producer
  . refine ⟨?_, ?_⟩
    all_goals rw [setSink_of_ne hother]
    . exact (h other).entries
    . exact (h other).producer

namespace State

def Healthy (s : State) : Prop := ∀ sink, (s.sinks sink).Accepted

structure Answered (s : State) : Prop where
  thrown : ∀ call, none ∉ answersOf s.logger.backend.2 call
  answer : s.Healthy → s.answer = true
  answers : s.Healthy → ∀ call, some false ∉ answersOf s.logger.backend.2 call

theorem Healthy.of_setSink {state : ImmediateState} (h : (s.setSink sink state).Healthy)
    (hbefore : state.Accepted → (s.sinks sink).Accepted)
    : s.Healthy := by
  intro other
  have hother := h other
  by_cases heq : other = sink
  . subst heq
    rw [setSink_self] at hother
    exact hbefore hother
  . rwa [setSink_of_ne heq] at hother

theorem Healthy.of_writes {event : Backend.Event} (h : (s.writes event).Healthy) : s.Healthy := by
  unfold writes at h
  split at h
  . exact Healthy.of_setSink h id
  . exact h

theorem answer_writes (event : Backend.Event) : (s.writes event).answer = s.answer := by
  unfold writes
  split <;> rfl

theorem answer_of_allows {event : SyncLogger.Event} (h : s.allows (.backend event) = true) {call : SyncLogger.Call}
    {answer : Option Bool} (hanswer : event.answer call = some answer)
    : answer = some s.answer := by
  cases event with
  | finish other accepted =>
    simp only [SyncLogger.Event.answer] at hanswer
    split at hanswer
    . cases hanswer
      exact of_decide_eq_true (Bool.and_eq_true_iff.mp h).2
    . cases hanswer
  | call | step => cases hanswer

theorem Answered.logger (h : s.Answered) {event : Backend.Event} {logger : Backend.State}
    (hallowed : s.allows event = true) (hlogger : s.logger.step policy metadata event = some logger)
    : Answered { s.writes event with logger := logger } := by
  have hanswer : ∀ call answer, answer ∈ answersOf logger.backend.2 call →
      answer ∈ answersOf s.logger.backend.2 call ∨ answer = some s.answer := by
    intro call answer hmem
    rw [Backend.log_step hlogger] at hmem
    rcases List.mem_append.mp hmem with hold | hnew
    . exact .inl hold
    . cases event with
      | backend event => exact .inr (answer_of_allows hallowed (Option.mem_toList.mp hnew))
      | logger | pass => cases hnew
  constructor
  case thrown =>
    intro call hmem
    rcases hanswer call none hmem with hold | hnew
    . exact h.thrown call hold
    . cases hnew
  case answer =>
    intro hhealthy
    exact (answer_writes event).trans (h.answer (Healthy.of_writes hhealthy))
  case answers =>
    intro hhealthy call hmem
    have hbefore := Healthy.of_writes hhealthy
    rcases hanswer call (some false) hmem with hold | hnew
    . exact h.answers hbefore call hold
    . rw [h.answer hbefore] at hnew
      cases hnew

theorem Answered.ret (h : s.Answered) {thread : Nat} {record : Record} {result : Bool}
    : Answered { s.setSink sink ((s.sinks sink).returnWrite thread record result) with
        active := none
        answer := result } := by
  have hbefore : Healthy (s.setSink sink ((s.sinks sink).returnWrite thread record result)) → s.Healthy :=
    fun hhealthy => hhealthy.of_setSink fun haccepted written hmem => haccepted written (List.mem_append_left _ hmem)
  constructor
  case thrown => exact h.thrown
  case answer =>
    intro hhealthy
    have hsink := hhealthy sink
    simp only [setSink_self] at hsink
    exact hsink _ (List.mem_append_right _ (List.mem_singleton_self _))
  case answers => exact fun hhealthy => h.answers (hbefore hhealthy)

end State

theorem answered (hs : (system policy metadata).Reachable s) : s.Answered := by
  apply hs.invariant
  . exact ⟨fun _ => List.not_mem_nil, fun _ => rfl, fun _ _ => List.not_mem_nil⟩
  . intro s event s' hs h _ hstep
    cases State.step_cases hstep with
    | logger hallowed hlogger => exact h.logger hallowed hlogger
    | ret hpc => exact h.ret
    | sink _ _ hsink =>
      have hbefore := fun hhealthy =>
        State.Healthy.of_setSink hhealthy (ImmediateState.step_cases hsink).accepted_before
      exact ⟨h.thrown, fun hhealthy => h.answer (hbefore hhealthy), fun hhealthy => h.answers (hbefore hhealthy)⟩

def sinksOf (logger : Backend.State) (call : SyncLogger.Call) : List LogSink :=
  logger.backend.1.memory.history.made call

structure State.Settled (s : State) (finished : AsyncLogger.LogRecord × AsyncLogger.Outcome) (call : SyncLogger.Call)
    : Prop where
  handed : ∃ entry : LogEntry, entry.level = finished.1.level ∧ entry.error = finished.1.error ∧
    s.logger.backend.1.memory.history.callbacks call = (sinksOf s.logger call).map fun sink => (sink, entry)
  once : (sinksOf s.logger call).Nodup
  attached : ∀ sink, s.logger.backend.1.Attached s.logger.backend.2 sink → sink ∈ sinksOf s.logger call
  outcome : s.Healthy → (finished.2 = .result true ↔ sinksOf s.logger call ≠ [])

theorem settled (hs : (system policy metadata).Reachable s)
    : List.Forall₂ s.Settled s.logger.logger.memory.history.finished s.logger.ended := by
  have hlogger := reachable_logger hs
  have hanswered := answered hs
  apply (Backend.linked hlogger).ended.imp
  rintro finished call ⟨hrequest, operation, selection, result, hcall, houtcome⟩
  have hbroadcast := SyncLogger.State.broadcast (Backend.reachable_backend hlogger) hcall
  obtain ⟨-, -, hall⟩ := SyncLogger.State.wrote (Backend.reachable_sync hlogger) hcall
  have hresult : result ≠ none := fun hnone => hanswered.thrown call (hbroadcast.propagated.mp hnone)
  have hmade : sinksOf s.logger call = selection.slots.map SyncLogger.SinkSlot.sink := hall hresult
  have hlength : (s.logger.backend.1.memory.history.callbacks call).length = selection.slots.length := by
    have hmap := congrArg List.length hmade
    rwa [sinksOf, SyncLogger.History.made, List.length_map, List.length_map] at hmap
  constructor
  case handed =>
    obtain ⟨entry, hentry, hoffered⟩ := hbroadcast.offered
    rw [hrequest, Option.some.injEq, SyncLogger.Request.write.injEq] at hentry
    refine ⟨entry, hentry.1.symm, hentry.2.symm, ?_⟩
    rw [hoffered.eq_of_length (by rw [hlength, List.length_map]), hmade, List.map_map]
    rfl
  case once =>
    rw [hmade]
    exact hbroadcast.once
  case attached =>
    intro sink hattached
    rw [hmade]
    exact hattached.selected (Backend.reachable_sync hlogger) hcall hrequest
  case outcome =>
    intro hhealthy
    have hanswers : answersOf s.logger.backend.2 call = List.replicate selection.slots.length (some true) := by
      rw [List.eq_replicate_iff]
      refine ⟨by rw [hbroadcast.answered, hlength], ?_⟩
      intro answer hmem
      rcases answer with _ | (_ | _)
      . exact absurd hmem (hanswered.thrown call)
      . exact absurd hmem (hanswered.answers hhealthy call)
      . rfl
    have hsuccess : finished.2 = .result true ↔ result = some true := by
      rw [houtcome]
      cases result with
      | none => exact absurd rfl hresult
      | some accepted => simp [Backend.outcome]
    rw [hsuccess, hbroadcast.success, and_iff_left hanswers, hmade, Ne, Ne, List.map_eq_nil_iff]

theorem State.Settled.handedTo {finished : AsyncLogger.LogRecord × AsyncLogger.Outcome} {call : SyncLogger.Call}
    (h : s.Settled finished call) (sink : LogSink)
    : ((s.logger.backend.1.memory.history.callbacks call).filter fun offer => offer.1 = sink).map
          (LogEntry.printed ∘ Prod.snd) =
        if sink ∈ sinksOf s.logger call then [finished.1.entry] else [] := by
  obtain ⟨entry, hlevel, herror, hcallbacks⟩ := h.handed
  have hentry : entry.printed = finished.1.entry := by
    rw [LogEntry.printed, hlevel, herror, AsyncLogger.LogRecord.entry]
  rw [hcallbacks, List.filter_map, List.map_map]
  have hsinks : (sinksOf s.logger call).filter ((fun offer : LogSink × LogEntry => decide (offer.1 = sink)) ∘
      fun sink => (sink, entry)) = List.replicate ((sinksOf s.logger call).count sink) sink :=
    List.filter_eq sink
  rw [hsinks, List.map_replicate]
  split
  . next hmem =>
    rw [List.count_eq_one_of_mem h.once hmem, ← hentry]
    rfl
  . next hmem =>
    rw [List.count_eq_zero.mpr hmem]
    rfl

namespace State

def accepted (s : State) : List AsyncLogger.LogRecord := s.logger.logger.memory.history.accepted

def selected (s : State) (sink : LogSink) : List AsyncLogger.LogRecord :=
  ((s.accepted.zip s.logger.ended).filter fun call => sink ∈ sinksOf s.logger call.2).map Prod.fst

end State

end TextDelivery

end Vosp
