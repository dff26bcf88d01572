import Mathlib.Data.List.Forall2
import Vosp.Logger.Backend

/-!
This module proves that the asynchronous logger and its backend stay in step: where the current call of
`write_owned` is tells where the worker is, every call that has ended has published the record that the worker
took for it, and the logger never holds the backend up.
-/

namespace Vosp

namespace AsyncLogger

def CallPc.filtered (pc : CallPc) : Option LogRecord :=
  match pc with
  | .writeLock record | .writeTest record | .writeSleep record | .writeCheck record => some record
  | _ => none

def Event.ofBackend (event : Event) : Bool :=
  match event with
  | .backend _ _ | .finish _ => true
  | _ => false

namespace State

variable {policy : LoggerPolicy} {metadata : LoggerMetadataPolicy} {s s' : State} {event : Event} {t : Thread}

structure Filtered (policy : LoggerPolicy) (s : State) : Prop where
  calls : ∀ t record, (s.call t).filtered = some record → policy record.level = true
  accepted : ∀ record ∈ s.memory.history.accepted, policy record.level = true

theorem filtered_edge {exited : Prop} {m : Memory} {pc pc' : CallPc} {op : Op}
    (h : CallEdge policy exited t m pc op pc')
    (hpc : ∀ record, pc.filtered = some record → policy record.level = true)
    : (∀ record, pc'.filtered = some record → policy record.level = true) ∧
        ∀ record ∈ (op.apply t m).history.accepted, record ∈ m.history.accepted ∨ policy record.level = true := by
  cases h
  case accept hpolicy =>
    refine ⟨?_, fun _ hmem => .inl hmem⟩
    intro record hrecord
    cases hrecord
    exact hpolicy
  case push record hstopping =>
    refine ⟨fun _ hrecord => absurd hrecord.symm (Option.some_ne_none _), ?_⟩
    intro other hother
    rcases List.mem_append.mp hother with hold | hnew
    . exact .inl hold
    . rw [List.mem_singleton.mp hnew]
      exact .inr (hpc record rfl)
  case refuse => exact ⟨fun _ hrecord => absurd hrecord.symm (Option.some_ne_none _), fun _ hmem => .inl hmem⟩
  all_goals exact ⟨hpc, fun _ hmem => .inl hmem⟩

theorem Filtered.step (h : s.Filtered policy) (hstep : Step policy metadata s event s') : s'.Filtered policy := by
  cases hstep with
  | @start t request hidle hworker =>
    refine ⟨?_, by cases request <;> exact h.accepted⟩
    intro u record hu
    by_cases hut : u = t
    . subst hut
      cases request <;> simp [startCall, setCall, CallPc.filtered] at hu
    . rw [startCall_call_of_ne hut] at hu
      exact h.calls u record hu
  | @call t op pc hedge =>
    obtain ⟨hcall, haccepted⟩ := filtered_edge hedge (h.calls t)
    constructor
    . intro u record hu
      by_cases hut : u = t
      . subst hut
        simp only [setCall, Function.update_self] at hu
        exact hcall record hu
      . simp only [setCall, Function.update_of_ne hut] at hu
        exact h.calls u record hu
    . intro record hrecord
      exact (haccepted record hrecord).elim (h.accepted record) id
  | work hedge =>
    refine ⟨h.calls, ?_⟩
    rw [accepted_work hedge]
    exact h.accepted
  | _ => exact ⟨h.calls, h.accepted⟩

theorem filtered (hs : (system policy metadata).Reachable s) : s.Filtered policy := by
  apply System.ReachableVia.invariant _ _ hs
  . constructor
    case calls => exact fun _ _ hrecord => absurd hrecord.symm (Option.some_ne_none _)
    case accepted => exact fun _ hrecord => absurd hrecord List.not_mem_nil
  . intro s event s' _ h _ hstep
    exact h.step (step_cases hstep)

theorem policy_of_batch (hs : (system policy metadata).Reachable s) {record : LogRecord}
    (hrecord : record ∈ s.worker.batch)
    : policy record.level = true := by
  apply (filtered hs).accepted
  rw [(valid hs).ledger.accepted]
  exact List.mem_append_left _ (List.mem_append_right _ hrecord)

theorem Step.finished_eq (h : Step policy metadata s event s') (hevent : event.ofBackend = false)
    : s'.memory.history.finished = s.memory.history.finished := by
  cases h with
  | @start t request => cases request <;> rfl
  | @call t op pc => cases op <;> rfl
  | @work op pc hedge =>
    generalize s.worker = before at hedge
    cases hedge <;> rfl
  | spurious => rfl
  | filtered | hand | unattached | finish => cases hevent

theorem Step.worker_cases (h : Step policy metadata s event s') (hevent : event.ofBackend = false)
    : s'.worker = s.worker ∨
        s.worker.current = [] ∧ s'.worker.current = [] ∧ ∀ record batch, s.worker ≠ .deliver (record :: batch) := by
  cases h with
  | @start t request => cases request <;> exact .inl rfl
  | call | spurious => exact .inl rfl
  | @work op pc hedge =>
    right
    generalize s.worker = before at hedge
    cases hedge <;> exact ⟨rfl, rfl, fun _ _ hworker => by cases hworker⟩
  | filtered | hand | unattached | finish => cases hevent

theorem Step.busy (h : Step policy metadata s event s') (hbusy : s'.call t ≠ .idle)
    : s.call t ≠ .idle ∨ ∃ request, event = .call t request := by
  cases h with
  | @start u request =>
    by_cases htu : t = u
    . rw [htu]
      exact .inr ⟨request, rfl⟩
    . rw [startCall_call_of_ne htu] at hbusy
      exact .inl hbusy
  | @call u op pc hedge =>
    left
    by_cases htu : t = u
    . subst htu
      intro hidle
      rw [hidle] at hedge
      cases hedge
    . simp only [setCall, Function.update_of_ne htu] at hbusy
      exact hbusy
  | _ => exact .inl hbusy

end State

end AsyncLogger

namespace SyncLogger

variable {config : Config} {s s' : State × List Event} {event : Event} {call other : Call} {now : TimePoint}

def CallPc.selecting (pc : CallPc) : Bool :=
  match pc with
  | .write _ _ | .stamp _ _ | .load _ | .readLock _ | .read _ | .readUnlock _ _ => true
  | _ => false

def CallPc.selected (pc : CallPc) : Bool :=
  match pc with
  | .callbackLock _ _ | .deliver _ _ _ _ | .inCallback _ _ _ _ | .callbackUnlock _ _ => true
  | _ => false

def Event.target (event : Event) : Call :=
  match event with
  | .call call _ | .step call _ | .finish call _ => call

theorem recorded_step (h : (recorded config).step s event = some s')
    : s.1.step config event = some s'.1 ∧ s'.2 = s.2 ++ [event] := by
  obtain ⟨s₁, hstep, rfl⟩ := Option.map_eq_some_iff.mp h
  exact ⟨hstep, rfl⟩

theorem requestOf_mono (h : (recorded config).step s event = some s') {request : Request}
    (hrequest : requestOf s.2 call = some request)
    : requestOf s'.2 call = some request := by
  rw [(recorded_step h).2, requestOf_append, hrequest]
  rfl

theorem State.Step.call_of_ne {s s' : State} (h : s.Step config event s') (hother : other ≠ event.target)
    : s'.call other = s.call other := by
  cases h <;> exact setCall_of_ne hother

theorem State.Step.returned {s s' : State} (h : s.Step config event s') {operation : Operation} {outcome : Outcome}
    (hcall : s.call call = .returned operation outcome)
    : s'.call call = .returned operation outcome := by
  by_cases hother : call = event.target
  . subst hother
    cases h with
    | start request hidle =>
      rw [Event.target, hidle] at hcall
      cases hcall
    | call hedge =>
      rw [Event.target] at hcall
      rw [hcall] at hedge
      cases hedge
    | accepted hcallback | thrown hcallback =>
      rw [Event.target, hcallback] at hcall
      cases hcall
  . rw [h.call_of_ne hother]
    exact hcall

theorem State.Step.stage {s s' : State} (h : s.Step config event s') (call : Call)
    (hevent : ∀ now, event ≠ .step call now)
    : ((s.call call).selecting = true → (s'.call call).selecting = true) ∧
        ((s.call call).selected = true → (s'.call call).selected = true) := by
  by_cases hother : call = event.target
  . subst hother
    cases h with
    | start request hidle =>
      rw [Event.target, hidle]
      exact ⟨nofun, nofun⟩
    | @call _ _ _ now => exact absurd rfl (hevent now)
    | accepted hcallback | thrown hcallback =>
      rw [Event.target, hcallback, setCall_self]
      exact ⟨nofun, fun _ => rfl⟩
  . rw [h.call_of_ne hother]
    exact ⟨id, id⟩

theorem call_step (h : (recorded config).step s (.step call now) = some s')
    : ∃ m, CallPc.step config s.1.memory call now (s.1.call call) = some (m, s'.1.call call) := by
  obtain ⟨⟨m, pc⟩, hcall, hstate⟩ := Option.map_eq_some_iff.mp (recorded_step h).1
  refine ⟨m, ?_⟩
  rw [← hstate, State.setCall_self]
  exact hcall

theorem start_step {request : Request} (h : (recorded config).step s (.call call request) = some s')
    : s.1.call call = .idle ∧ s'.1.call call = request.entry := by
  have hstep := (recorded_step h).1
  simp only [State.step] at hstep
  split at hstep
  . next hidle =>
    refine ⟨hidle, ?_⟩
    rw [← Option.some.inj hstep]
    exact State.setCall_self
  . cases hstep

theorem request_of_append {log : List Event} {request : Request} (h : requestOf (log ++ [event]) call = some request)
    : requestOf log call = some request ∨ event = .call call request := by
  rw [requestOf_append, Option.or_eq_some_iff] at h
  rcases h with hold | ⟨-, hnew⟩
  . exact .inl hold
  . cases event with
    | call other request' =>
      simp only [Event.request] at hnew
      split at hnew
      . next hsame =>
        cases hnew
        rw [hsame]
        exact .inr rfl
      . cases hnew
    | step | finish => cases hnew

end SyncLogger

namespace Backend

open SyncLogger (CallPc Call Selection requestOf)

variable {policy : LoggerPolicy} {metadata : LoggerMetadataPolicy} {s s' : State} {event : Event}

section

variable {m m' : SyncLogger.Memory} {call : Call} {now now' : TimePoint} {pc pc' : CallPc} {event : AsyncLogger.Event}

theorem report_ne_call (now : TimePoint) (before after : CallPc) {thread : AsyncLogger.Thread}
    {request : AsyncLogger.Request}
    : report now before after ≠ some (.call thread request) := by
  unfold report
  split <;> nofun

theorem selecting_of_report (h : CallPc.step (config policy metadata) m call now pc = some (m', pc'))
    (hpc : pc.selecting = true) (hreport : report now' pc pc' = none)
    : pc'.selecting = true := by
  cases SyncLogger.edge_of_step h
  case filter | loadFast | readEmpty | readUnlock => cases hreport
  case accept | stamp | load | readLock | read => rfl
  all_goals cases hpc

theorem report_of_selecting (h : CallPc.step (config policy metadata) m call now pc = some (m', pc'))
    (hpc : pc.selecting = true) (hreport : report now' pc pc' = some event)
    : (∃ level error, pc = .write level error ∧ policy level = false) ∨
        (event = .backend now' false ∧ pc' = .returned .write (.wrote .empty (some false))) ∨
        (event = .backend now' true ∧ pc'.selected = true) := by
  cases SyncLogger.edge_of_step h
  case filter level error =>
    refine .inl ⟨level, error, rfl, ?_⟩
    by_contra hpolicy
    rw [Bool.not_eq_false] at hpolicy
    simp [CallPc.step, config, hpolicy] at h
  case readEmpty =>
    cases hreport
    exact .inr (.inl ⟨rfl, rfl⟩)
  case loadFast | readUnlock =>
    cases hreport
    exact .inr (.inr ⟨rfl, rfl⟩)
  case accept | stamp | load | readLock | read => cases hreport
  all_goals cases hpc

theorem selected_of_report (h : CallPc.step (config policy metadata) m call now pc = some (m', pc'))
    (hpc : pc.selected = true) (hreport : report now' pc pc' = none)
    : pc'.selected = true := by
  cases SyncLogger.edge_of_step h
  case callbackUnlock => cases hreport
  case callbackLock | deliver | delivered => rfl
  all_goals cases hpc

theorem report_of_selected (h : CallPc.step (config policy metadata) m call now pc = some (m', pc'))
    (hpc : pc.selected = true) (hreport : report now' pc pc' = some event)
    : ∃ selection result, event = .finish (outcome result) ∧ pc' = .returned .write (.wrote selection result) := by
  cases SyncLogger.edge_of_step h
  case callbackUnlock selection result owners =>
    cases hreport
    exact ⟨selection, result, rfl, rfl⟩
  case callbackLock | deliver | delivered => cases hreport
  all_goals cases hpc

end

theorem reachable_logger (hs : (system policy metadata).Reachable s)
    : (AsyncLogger.system policy metadata).Reachable s.logger := by
  apply hs.invariant .init
  intro s event s' _ h _ hstep
  cases State.step_cases hstep with
  | logger _ hlogger | select _ _ _ hlogger | finish _ _ _ hlogger => exact h.next hlogger
  | pass | other | advance => exact h

theorem reachable_backend (hs : (system policy metadata).Reachable s)
    : (backendSystem policy metadata).Reachable s.backend := by
  apply hs.invariant .init
  intro s event s' _ h _ hstep
  cases State.step_cases hstep with
  | logger => exact h
  | pass _ _ hbackend | other _ _ hbackend | advance _ hbackend | select _ hbackend | finish _ hbackend =>
    exact h.next hbackend

def Settled (backend : BackendState) (finished : AsyncLogger.LogRecord × AsyncLogger.Outcome) (call : Call) : Prop :=
  requestOf backend.2 call = some (.write finished.1.level finished.1.error) ∧
    ∃ operation selection result, backend.1.call call = .returned operation (.wrote selection result) ∧
      finished.2 = outcome result

structure Linked (s : State) : Prop where
  idle : s.current = none → s.logger.worker.current = []
  current : ∀ call, s.current = some call → ∃ record batch,
    requestOf s.backend.2 call = some (.write record.level record.error) ∧
      (s.logger.worker = .deliver (record :: batch) ∧ (s.backend.1.call call).selecting = true ∨
        s.logger.worker = .callback record batch ∧ (s.backend.1.call call).selected = true)
  ended : List.Forall₂ (Settled s.backend) s.logger.memory.history.finished s.ended
  returned : ∀ call ∈ s.ended, ∃ operation outcome, s.backend.1.call call = .returned operation outcome
  once : (s.ended ++ s.current.toList).Nodup
  all : ∀ call level error, requestOf s.backend.2 call = some (.write level error) →
    call ∈ s.ended ++ s.current.toList

section

variable {backend : BackendState} {event : SyncLogger.Event} {logger : AsyncLogger.State}
  {call : Call} {now now' : TimePoint}

theorem Settled.step (hbackend : (backendSystem policy metadata).step s.backend event = some backend)
    {finished : AsyncLogger.LogRecord × AsyncLogger.Outcome} (h : Settled s.backend finished call)
    : Settled backend finished call := by
  obtain ⟨hrequest, operation, selection, result, hcall, hresult⟩ := h
  have hstep := SyncLogger.State.step_cases (SyncLogger.recorded_step hbackend).1
  exact ⟨SyncLogger.requestOf_mono hbackend hrequest, operation, selection, result, hstep.returned hcall, hresult⟩

theorem Linked.ended_step (h : Linked s)
    (hbackend : (backendSystem policy metadata).step s.backend event = some backend)
    : List.Forall₂ (Settled backend) s.logger.memory.history.finished s.ended :=
  h.ended.imp fun _ _ => Settled.step hbackend

theorem Linked.returned_step (h : Linked s)
    (hbackend : (backendSystem policy metadata).step s.backend event = some backend)
    : ∀ call ∈ s.ended, ∃ operation outcome, backend.1.call call = .returned operation outcome := by
  intro call hcall
  obtain ⟨operation, outcome, hreturned⟩ := h.returned call hcall
  have hstep := SyncLogger.State.step_cases (SyncLogger.recorded_step hbackend).1
  exact ⟨operation, outcome, hstep.returned hreturned⟩

theorem Linked.all_step (h : Linked s)
    (hbackend : (backendSystem policy metadata).step s.backend event = some backend)
    (hevent : ∀ call level error, event ≠ .call call (.write level error))
    : ∀ call level error, requestOf backend.2 call = some (.write level error) →
        call ∈ s.ended ++ s.current.toList := by
  intro call level error hrequest
  rw [(SyncLogger.recorded_step hbackend).2] at hrequest
  rcases SyncLogger.request_of_append hrequest with hold | hnew
  . exact h.all call level error hold
  . exact absurd hnew (hevent call level error)

theorem Linked.loggerStep (h : Linked s) {event : AsyncLogger.Event} (hallowed : s.allowsLogger event = true)
    (hlogger : s.logger.step policy metadata event = some logger)
    : Linked { s with logger := logger } := by
  have hevent : event.ofBackend = false := by
    cases event with
    | backend | finish => cases hallowed
    | _ => rfl
  have hstep := AsyncLogger.State.step_cases hlogger
  have hworker := hstep.worker_cases hevent
  constructor
  case idle =>
    intro hnone
    rcases hworker with hsame | ⟨-, hcurrent, -⟩
    . simp only [hsame]
      exact h.idle hnone
    . exact hcurrent
  case current =>
    intro call hcall
    obtain ⟨record, batch, hrequest, hstage⟩ := h.current call hcall
    refine ⟨record, batch, hrequest, ?_⟩
    rcases hworker with hsame | ⟨hnone, -, hdeliver⟩
    . simp only [hsame]
      exact hstage
    . rcases hstage with ⟨hwaiting, -⟩ | ⟨hcallback, -⟩
      . exact absurd hwaiting (hdeliver record batch)
      . rw [hcallback] at hnone
        cases hnone
  case ended =>
    simp only [hstep.finished_eq hevent]
    exact h.ended
  case returned => exact h.returned
  case once => exact h.once
  case all => exact h.all

theorem Linked.pass (h : Linked s) {record : AsyncLogger.LogRecord} {batch : List AsyncLogger.LogRecord}
    (hworker : s.logger.worker = .deliver (record :: batch)) (hcurrent : s.current = none)
    (hbackend : (backendSystem policy metadata).step s.backend (.call call (.write record.level record.error)) =
      some backend)
    (hnone : s.backend.1.call call = .idle → requestOf s.backend.2 call = none)
    : Linked { s with backend := backend, current := some call } := by
  obtain ⟨hidle, hstart⟩ := SyncLogger.start_step hbackend
  have hlog := (SyncLogger.recorded_step hbackend).2
  constructor
  case idle => exact fun hnone => absurd hnone (Option.some_ne_none _)
  case current =>
    intro call' hcall
    cases hcall
    refine ⟨record, batch, ?_, .inl ⟨hworker, ?_⟩⟩
    . simp only [hlog, SyncLogger.requestOf_append, hnone hidle]
      exact if_pos rfl
    . simp only [hstart]
      rfl
  case ended => exact h.ended_step hbackend
  case returned => exact h.returned_step hbackend
  case once =>
    have hended := h.once
    rw [hcurrent, Option.toList_none, List.append_nil] at hended
    simp only [Option.toList_some]
    rw [List.nodup_append]
    refine ⟨hended, List.nodup_cons.mpr ⟨List.not_mem_nil, List.nodup_nil⟩, ?_⟩
    intro other hother call' hcall' heq
    rw [heq, List.mem_singleton.mp hcall'] at hother
    obtain ⟨operation, outcome, hreturned⟩ := h.returned call hother
    rw [hidle] at hreturned
    cases hreturned
  case all =>
    intro other level error hrequest
    simp only [hlog] at hrequest
    rcases SyncLogger.request_of_append hrequest with hold | hnew
    . have hmem := h.all other level error hold
      rw [hcurrent, Option.toList_none, List.append_nil] at hmem
      exact List.mem_append_left _ hmem
    . cases hnew
      exact List.mem_append_right _ (List.mem_singleton_self _)

theorem Linked.other (h : Linked s) (hallowed : s.allowsBackend event = true)
    (hother : ∀ call now, event = .step call now → s.current ≠ some call)
    (hbackend : (backendSystem policy metadata).step s.backend event = some backend)
    : Linked { s with backend := backend } := by
  constructor
  case idle => exact h.idle
  case current =>
    intro call hcall
    obtain ⟨record, batch, hrequest, hstage⟩ := h.current call hcall
    have hstep := SyncLogger.State.step_cases (SyncLogger.recorded_step hbackend).1
    obtain ⟨hselecting, hselected⟩ := hstep.stage call fun now heq => hother call now heq hcall
    refine ⟨record, batch, SyncLogger.requestOf_mono hbackend hrequest, ?_⟩
    exact hstage.imp (And.imp_right hselecting) (And.imp_right hselected)
  case ended => exact h.ended_step hbackend
  case returned => exact h.returned_step hbackend
  case once => exact h.once
  case all =>
    apply h.all_step hbackend
    rintro call level error rfl
    cases hallowed

theorem Linked.advance (h : Linked s) (hcurrent : s.current = some call)
    (hbackend : (backendSystem policy metadata).step s.backend (.step call now) = some backend)
    (hreport : report now' (s.backend.1.call call) (backend.1.call call) = none)
    : Linked { s with backend := backend, now := now' } := by
  obtain ⟨m, hcall⟩ := SyncLogger.call_step hbackend
  constructor
  case idle => exact h.idle
  case current =>
    intro call' hsame
    cases hcurrent.symm.trans hsame
    obtain ⟨record, batch, hrequest, hstage⟩ := h.current call hcurrent
    refine ⟨record, batch, SyncLogger.requestOf_mono hbackend hrequest, ?_⟩
    exact hstage.imp (And.imp_right fun hpc => selecting_of_report hcall hpc hreport)
      (And.imp_right fun hpc => selected_of_report hcall hpc hreport)
  case ended => exact h.ended_step hbackend
  case returned => exact h.returned_step hbackend
  case once => exact h.once
  case all => exact h.all_step hbackend fun _ _ _ heq => by cases heq

theorem current_policy (hs : (system policy metadata).Reachable s) {record : AsyncLogger.LogRecord}
    {batch : List AsyncLogger.LogRecord} (hworker : s.logger.worker = .deliver (record :: batch))
    : policy record.level = true := by
  apply AsyncLogger.State.policy_of_batch (reachable_logger hs)
  rw [hworker]
  exact List.mem_cons_self

theorem Linked.report_cases (h : Linked s) (hs : (system policy metadata).Reachable s)
    (hcurrent : s.current = some call)
    (hbackend : (backendSystem policy metadata).step s.backend (.step call now) = some backend)
    {event : AsyncLogger.Event} (hreport : report now' (s.backend.1.call call) (backend.1.call call) = some event)
    : ∃ record batch, requestOf s.backend.2 call = some (.write record.level record.error) ∧
        (s.logger.worker = .deliver (record :: batch) ∧ policy record.level = true ∧
            (event = .backend now' false ∧ backend.1.call call = .returned .write (.wrote .empty (some false)) ∨
              event = .backend now' true ∧ (backend.1.call call).selected = true) ∨
          s.logger.worker = .callback record batch ∧ ∃ selection result,
            event = .finish (outcome result) ∧ backend.1.call call = .returned .write (.wrote selection result)) := by
  obtain ⟨m, hcall⟩ := SyncLogger.call_step hbackend
  obtain ⟨record, batch, hrequest, hstage⟩ := h.current call hcurrent
  refine ⟨record, batch, hrequest, ?_⟩
  rcases hstage with ⟨hworker, hselecting⟩ | ⟨hworker, hselected⟩
  . have hpolicy := current_policy hs hworker
    rcases report_of_selecting hcall hselecting hreport with ⟨level, error, hpc, hfiltered⟩ | hselect
    . have hoffers := SyncLogger.State.offering (reachable_backend hs) call
      rw [hpc, hrequest] at hoffers
      cases hoffers.1
      rw [hpolicy] at hfiltered
      cases hfiltered
    . exact .inl ⟨hworker, hpolicy, hselect⟩
  . exact .inr ⟨hworker, report_of_selected hcall hselected hreport⟩

theorem Linked.select (h : Linked s) (hs : (system policy metadata).Reachable s) (hcurrent : s.current = some call)
    (hbackend : (backendSystem policy metadata).step s.backend (.step call now) = some backend)
    {event : AsyncLogger.Event} (hreport : report now' (s.backend.1.call call) (backend.1.call call) = some event)
    (hlogger : s.logger.step policy metadata event = some logger)
    (hafter : ∀ operation outcome, backend.1.call call ≠ .returned operation outcome)
    : Linked { s with logger := logger, backend := backend, now := now' } := by
  obtain ⟨record, batch, hrequest, hcases⟩ := h.report_cases hs hcurrent hbackend hreport
  rcases hcases with ⟨hworker, hpolicy, ⟨-, hreturned⟩ | ⟨rfl, hselected⟩⟩ | ⟨-, selection, result, -, hreturned⟩
  . exact absurd hreturned (hafter _ _)
  . simp only [AsyncLogger.State.step, AsyncLogger.State.stepBackend, hworker, hpolicy, not_true, if_false, if_true,
      Option.some.injEq] at hlogger
    subst hlogger
    constructor
    case idle =>
      intro hnone
      rw [hcurrent] at hnone
      cases hnone
    case current =>
      intro call' hsame
      cases hcurrent.symm.trans hsame
      exact ⟨record, batch, SyncLogger.requestOf_mono hbackend hrequest, .inr ⟨rfl, hselected⟩⟩
    case ended => exact h.ended_step hbackend
    case returned => exact h.returned_step hbackend
    case once => exact h.once
    case all => exact h.all_step hbackend fun _ _ _ heq => by cases heq
  . exact absurd hreturned (hafter _ _)

theorem Linked.end (h : Linked s) (hcurrent : s.current = some call)
    (hbackend : (backendSystem policy metadata).step s.backend (.step call now) = some backend)
    {record : AsyncLogger.LogRecord} {selection : Selection} {result : Option Bool}
    (hrequest : requestOf s.backend.2 call = some (.write record.level record.error))
    (hreturned : backend.1.call call = .returned .write (.wrote selection result))
    (hfinished : logger.memory.history.finished = s.logger.memory.history.finished ++ [(record, outcome result)])
    (hworker : logger.worker.current = [])
    : Linked
        { s with logger := logger, backend := backend, now := now', current := none, ended := s.ended ++ [call] } := by
  constructor
  case idle => exact fun _ => hworker
  case current => exact fun _ hnone => absurd hnone.symm (Option.some_ne_none _)
  case ended =>
    simp only [hfinished]
    apply List.rel_append (h.ended_step hbackend)
    refine .cons ⟨SyncLogger.requestOf_mono hbackend hrequest, ?_⟩ .nil
    exact ⟨.write, selection, result, hreturned, rfl⟩
  case returned =>
    intro other hother
    rcases List.mem_append.mp hother with hold | hnew
    . exact h.returned_step hbackend other hold
    . rw [List.mem_singleton.mp hnew]
      exact ⟨_, _, hreturned⟩
  case once =>
    have honce := h.once
    rw [hcurrent] at honce
    simpa using honce
  case all =>
    have hall := h.all_step hbackend fun _ _ _ heq => by cases heq
    rw [hcurrent] at hall
    simpa using hall

theorem Linked.finish (h : Linked s) (hs : (system policy metadata).Reachable s) (hcurrent : s.current = some call)
    (hbackend : (backendSystem policy metadata).step s.backend (.step call now) = some backend)
    {event : AsyncLogger.Event} (hreport : report now' (s.backend.1.call call) (backend.1.call call) = some event)
    (hlogger : s.logger.step policy metadata event = some logger) {operation : SyncLogger.Operation}
    {result : SyncLogger.Outcome} (hafter : backend.1.call call = .returned operation result)
    : Linked
        { s with logger := logger, backend := backend, now := now', current := none, ended := s.ended ++ [call] } := by
  obtain ⟨record, batch, hrequest, hcases⟩ := h.report_cases hs hcurrent hbackend hreport
  rcases hcases with ⟨hworker, hpolicy, ⟨rfl, hreturned⟩ | ⟨-, hselected⟩⟩ |
    ⟨hworker, selection, result, rfl, hreturned⟩
  . simp only [AsyncLogger.State.step, AsyncLogger.State.stepBackend, hworker, hpolicy, not_true, if_false,
      Bool.false_eq_true, Option.some.injEq] at hlogger
    subst hlogger
    exact h.end hcurrent hbackend hrequest hreturned rfl rfl
  . rw [hafter] at hselected
    cases hselected
  . cases AsyncLogger.State.step_cases hlogger with
    | finish hcallback =>
      cases hworker.symm.trans hcallback
      apply h.end hcurrent hbackend hrequest hreturned rfl
      simp only
      split <;> rfl

end

theorem linked (hs : (system policy metadata).Reachable s) : Linked s := by
  apply hs.invariant
  . constructor
    case idle => exact fun _ => rfl
    case current => exact fun _ hnone => absurd hnone.symm (Option.some_ne_none _)
    case ended => exact .nil
    case returned => exact fun _ hcall => absurd hcall List.not_mem_nil
    case once => exact List.nodup_nil
    case all => exact fun _ _ _ hrequest => absurd hrequest.symm (Option.some_ne_none _)
  . intro s event s' hs h _ hstep
    cases State.step_cases hstep with
    | logger hallowed hlogger => exact h.loggerStep hallowed hlogger
    | @pass record batch call backend hworker hcurrent hbackend =>
      apply h.pass hworker hcurrent hbackend
      intro hidle
      have hoffers := SyncLogger.State.offering (reachable_backend hs) call
      rw [hidle] at hoffers
      exact hoffers.1
    | other hallowed hother hbackend => exact h.other hallowed hother hbackend
    | advance hcurrent hbackend hreport => exact h.advance hcurrent hbackend hreport
    | select hcurrent hbackend hreport hlogger hafter => exact h.select hs hcurrent hbackend hreport hlogger hafter
    | finish hcurrent hbackend hreport hlogger hafter => exact h.finish hs hcurrent hbackend hreport hlogger hafter

theorem inCallback_iff : s.inCallback = true ↔ ∃ call entry selection remaining accepted,
    s.current = some call ∧ s.backend.1.call call = .inCallback entry selection remaining accepted := by
  unfold State.inCallback
  constructor
  . intro h
    split at h
    . next call hcurrent =>
      split at h
      . next entry selection remaining accepted hcall =>
        exact ⟨call, entry, selection, remaining, accepted, hcurrent, hcall⟩
      . cases h
    . cases h
  . rintro ⟨call, entry, selection, remaining, accepted, hcurrent, hcall⟩
    simp [hcurrent, hcall]

def Nested (s : State) : Prop := s.logger.call .worker ≠ .idle → s.inCallback = true

theorem Nested.idle (h : Nested s) {call : Call} {now : TimePoint} {m : SyncLogger.Memory} {pc : CallPc}
    (hcurrent : s.current = some call)
    (hcall : CallPc.step (config policy metadata) s.backend.1.memory call now (s.backend.1.call call) = some (m, pc))
    : s.logger.call .worker = .idle := by
  by_contra hbusy
  obtain ⟨call', entry, selection, remaining, accepted, hcurrent', hpc⟩ := inCallback_iff.mp (h hbusy)
  cases hcurrent.symm.trans hcurrent'
  rw [hpc] at hcall
  cases hcall

theorem Nested.step (h : Nested s) (hstep : s.Step policy metadata s') : Nested s' := by
  intro hbusy
  cases hstep with
  | @logger event logger hallowed hlogger =>
    rcases (AsyncLogger.State.step_cases hlogger).busy hbusy with hbefore | ⟨request, rfl⟩
    . exact h hbefore
    . have hcallback : s.inCallback = true := by simpa [State.allowsLogger] using hallowed
      exact hcallback
  | pass hworker hcurrent hbackend =>
    have hcallback := h hbusy
    simp [State.inCallback, hcurrent] at hcallback
  | @other event backend hallowed hother hbackend =>
    obtain ⟨call, entry, selection, remaining, accepted, hcurrent, hpc⟩ := inCallback_iff.mp (h hbusy)
    refine inCallback_iff.mpr ⟨call, entry, selection, remaining, accepted, hcurrent, ?_⟩
    rw [← hpc]
    apply (SyncLogger.State.step_cases (SyncLogger.recorded_step hbackend).1).call_of_ne
    rintro rfl
    cases event with
    | call call request =>
      have hidle := (SyncLogger.start_step hbackend).1
      rw [SyncLogger.Event.target, hidle] at hpc
      cases hpc
    | step call now => exact hother call now rfl hcurrent
    | finish call answer => exact hbusy (of_decide_eq_true hallowed)
  | advance hcurrent hbackend =>
    obtain ⟨m, hcall⟩ := SyncLogger.call_step hbackend
    exact absurd (h.idle hcurrent hcall) hbusy
  | select hcurrent hbackend hreport hlogger | finish hcurrent hbackend hreport hlogger =>
    obtain ⟨m, hcall⟩ := SyncLogger.call_step hbackend
    rcases (AsyncLogger.State.step_cases hlogger).busy hbusy with hbefore | ⟨request, rfl⟩
    . exact absurd (h.idle hcurrent hcall) hbefore
    . exact absurd hreport (report_ne_call _ _ _)

theorem nested (hs : (system policy metadata).Reachable s) : Nested s := by
  apply hs.invariant
  . exact fun hbusy => absurd rfl hbusy
  . intro s event s' _ h _ hstep
    exact h.step (State.step_cases hstep)

-- The logger takes part in every step that the backend can do in the current call.
theorem follows (hs : (system policy metadata).Reachable s) {call : Call} {now : TimePoint}
    {backend : BackendState} (hcurrent : s.current = some call)
    (hbackend : (backendSystem policy metadata).step s.backend (.step call now) = some backend)
    : ∃ s', s.step policy metadata (.backend (.step call now)) = some s' := by
  obtain ⟨m, hcall⟩ := SyncLogger.call_step hbackend
  have hidle := (nested hs).idle hcurrent hcall
  have hlinked := linked hs
  simp only [State.step, State.allowsBackend, hbackend, Option.bind_some, State.stepBackend, hcurrent, State.follow,
    if_true]
  split
  . exact ⟨_, rfl⟩
  . next event hreport =>
    rw [← Option.isSome_iff_exists, Option.isSome_map, Option.isSome_iff_exists]
    obtain ⟨record, batch, -, ⟨hworker, hpolicy, hselect⟩ | ⟨hworker, selection, result, rfl, -⟩⟩ :=
      hlinked.report_cases hs hcurrent hbackend hreport
    . rcases hselect with ⟨rfl, -⟩ | ⟨rfl, -⟩ <;>
        simp [AsyncLogger.State.step, AsyncLogger.State.stepBackend, hworker, hpolicy]
    . simp [AsyncLogger.State.step, AsyncLogger.State.stepFinish, hworker, hidle]

end Backend

end Vosp
