import Vosp.Logger.BackendLink

/-!
This module proves that every record that the worker of the asynchronous logger has taken is broadcast once by
the backend, and that the worker counts it as failed exactly if its broadcast has failed.
-/

namespace Vosp

namespace Backend

open SyncLogger (requestOf)

variable {policy : LoggerPolicy} {metadata : LoggerMetadataPolicy} {s : State}

/--
What the asynchronous logger makes of the broadcasts of its backend.
-/
structure State.Broadcasts (policy : LoggerPolicy) (s : State) : Prop where
  delivers : s.logger.Delivers policy
  finished : s.logger.memory.history.passed = s.logger.memory.history.finished.map Prod.fst ++ s.logger.worker.current
  broadcast : List.Forall₂
    (fun finished call => requestOf s.backend.2 call = some (.write finished.1.level finished.1.error) ∧
      ∃ selection result, s.backend.1.Broadcast s.backend.2 call selection result ∧ finished.2 = outcome result)
    s.logger.memory.history.finished s.ended
  once : s.ended.Nodup
  all : ∀ call level error, requestOf s.backend.2 call = some (.write level error) →
    call ∈ s.ended ∨ s.current = some call
  failed : s.logger.memory.failedRecords + s.logger.worker.uncounted =
    AsyncLogger.failures s.logger.memory.history.finished

theorem broadcasts (hs : (system policy metadata).Reachable s) : s.Broadcasts policy := by
  have hl := linked hs
  have hlogger := reachable_logger hs
  have hledger := (AsyncLogger.State.valid hlogger).ledger
  constructor
  case delivers => exact (AsyncLogger.State.valid hlogger).delivers
  case finished => exact hledger.finished
  case broadcast =>
    apply hl.ended.imp
    rintro finished call ⟨hrequest, operation, selection, result, hreturned, hresult⟩
    have hbroadcast := SyncLogger.State.broadcast (reachable_backend hs) hreturned
    exact ⟨hrequest, selection, result, hbroadcast, hresult⟩
  case once => exact (List.nodup_append.mp hl.once).1
  case all =>
    intro call level error hrequest
    rcases List.mem_append.mp (hl.all call level error hrequest) with hended | hcurrent
    . exact .inl hended
    . exact .inr (Option.mem_toList.mp hcurrent)
  case failed => exact hledger.failed

end Backend

open SyncLogger (answersOf)

theorem broadcast_fault_isolating (config : SyncLogger.Config) (policy : LoggerPolicy)
    (metadata : LoggerMetadataPolicy)
    : (∀ s, (SyncLogger.recorded config).Reachable s → ∀ call operation selection result,
        s.1.call call = .returned operation (.wrote selection result) → s.1.Broadcast s.2 call selection result) ∧
      ∀ s, (Backend.system policy metadata).Reachable s → s.Broadcasts policy :=
  ⟨fun _ hs _ _ _ _ hcall => SyncLogger.State.broadcast hs hcall, fun _ hs => Backend.broadcasts hs⟩

def attachTwo : List SyncLogger.Event :=
  .call ⟨1, 0⟩ (.attach 5) :: List.replicate 5 (.step ⟨1, 0⟩ 0) ++
    .call ⟨1, 1⟩ (.attach 7) :: List.replicate 5 (.step ⟨1, 1⟩ 0)

def rejectAndThrow (call : SyncLogger.Call) : List SyncLogger.Event :=
  List.replicate 8 (.step call 3) ++ [.finish call (some false), .step call 3, .finish call none, .step call 3]

def asyncRejectAndThrow : List Backend.Event :=
  attachTwo.map .backend ++
    (AsyncLogger.Event.call (.client 1) (.write .info sampleError) ::
      List.replicate 7 (.step (.client 1)) ++ List.replicate 5 AsyncLogger.Event.work).map .logger ++
    .pass ⟨0, 0⟩ :: (rejectAndThrow ⟨0, 0⟩).map .backend ++ [.logger .work]

theorem broadcast_fault_isolating_two
    : (∃ s : SyncLogger.State × List SyncLogger.Event,
        s.1.memory.history.made ⟨2, 0⟩ = [5, 7] ∧ answersOf s.2 ⟨2, 0⟩ = [some false, none] ∧
          s.1.Broadcast s.2 ⟨2, 0⟩ (.several [⟨5, none⟩, ⟨7, none⟩]) none) ∧
      ∃ s : Backend.State, s.logger.memory.failedRecords = 1 ∧ s.backend.1.memory.history.made ⟨0, 0⟩ = [5, 7] ∧
        s.Broadcasts acceptAllPolicy := by
  obtain ⟨hsync, hasync⟩ :=
    broadcast_fault_isolating ⟨acceptAllPolicy, fullMetadataPolicy, true⟩ acceptAllPolicy fullMetadataPolicy
  constructor
  . have hrun : ((SyncLogger.recorded ⟨acceptAllPolicy, fullMetadataPolicy, true⟩).run
        (SyncLogger.recorded ⟨acceptAllPolicy, fullMetadataPolicy, true⟩).init
        (attachTwo ++ .call ⟨2, 0⟩ (.write .info sampleError) :: rejectAndThrow ⟨2, 0⟩)).map
        (fun s => decide (s.1.memory.history.made ⟨2, 0⟩ = [5, 7]) &&
          (decide (answersOf s.2 ⟨2, 0⟩ = [some false, none]) &&
            decide (s.1.call ⟨2, 0⟩ = .returned .write (.wrote (.several [⟨5, none⟩, ⟨7, none⟩]) none)))) =
        some true := by
      decide +kernel
    obtain ⟨s, hs, hp⟩ := System.exists_of_run _ hrun
    simp only [Bool.and_eq_true, decide_eq_true_eq] at hp
    exact ⟨s, hp.1, hp.2.1, hsync s hs _ _ _ _ hp.2.2⟩
  . have hrun : ((Backend.system acceptAllPolicy fullMetadataPolicy).run .init asyncRejectAndThrow).map
        (fun s => decide (s.logger.memory.failedRecords = 1) &&
          decide (s.backend.1.memory.history.made ⟨0, 0⟩ = [5, 7])) = some true := by
      decide +kernel
    obtain ⟨s, hs, hp⟩ := System.exists_of_run _ hrun
    simp only [Bool.and_eq_true, decide_eq_true_eq] at hp
    exact ⟨s, hp.1, hp.2, hasync s hs⟩

-- The first of two sinks throws. A `write` without any sink reports a failure, although no sink has returned false.
theorem broadcast_stops_at_exception
    : (¬∀ s, (SyncLogger.recorded ⟨acceptAllPolicy, fullMetadataPolicy, true⟩).Reachable s →
        ∀ call operation selection result, s.1.call call = .returned operation (.wrote selection result) →
          s.1.memory.history.made call = selection.slots.map SyncLogger.SinkSlot.sink) ∧
      ¬∀ s, (SyncLogger.recorded ⟨acceptAllPolicy, fullMetadataPolicy, true⟩).Reachable s →
        ∀ call operation selection result, s.1.call call = .returned operation (.wrote selection result) →
          (result = some true ↔ ∀ answer ∈ answersOf s.2 call, answer = some true) := by
  constructor <;> intro h
  . have hrun : ((SyncLogger.recorded ⟨acceptAllPolicy, fullMetadataPolicy, true⟩).run
        (SyncLogger.recorded ⟨acceptAllPolicy, fullMetadataPolicy, true⟩).init
        (attachTwo ++ .call ⟨2, 0⟩ (.write .info sampleError) :: List.replicate 8 (.step ⟨2, 0⟩ 3) ++
          [.finish ⟨2, 0⟩ none, .step ⟨2, 0⟩ 3])).map
        (fun s => decide (s.1.memory.history.made ⟨2, 0⟩ = [5]) &&
          decide (s.1.call ⟨2, 0⟩ = .returned .write (.wrote (.several [⟨5, none⟩, ⟨7, none⟩]) none))) =
        some true := by
      decide +kernel
    obtain ⟨s, hs, hp⟩ := System.exists_of_run _ hrun
    simp only [Bool.and_eq_true, decide_eq_true_eq] at hp
    have hmade := h s hs _ _ _ _ hp.2
    rw [hp.1] at hmade
    cases hmade
  . have hrun : ((SyncLogger.recorded ⟨acceptAllPolicy, fullMetadataPolicy, true⟩).run
        (SyncLogger.recorded ⟨acceptAllPolicy, fullMetadataPolicy, true⟩).init
        (.call ⟨2, 0⟩ (.write .info sampleError) :: List.replicate 6 (.step ⟨2, 0⟩ 3))).map
        (fun s => decide (answersOf s.2 ⟨2, 0⟩ = []) &&
          decide (s.1.call ⟨2, 0⟩ = .returned .write (.wrote .empty (some false)))) =
        some true := by
      decide +kernel
    obtain ⟨s, hs, hp⟩ := System.exists_of_run _ hrun
    simp only [Bool.and_eq_true, decide_eq_true_eq] at hp
    have hreport := h s hs _ _ _ _ hp.2
    rw [hp.1] at hreport
    have hsuccess := hreport.mpr fun _ hanswer => absurd hanswer List.not_mem_nil
    cases hsuccess

end Vosp
