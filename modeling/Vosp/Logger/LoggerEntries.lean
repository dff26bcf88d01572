import Vosp.Logger.LoggerDelivery

/-!
This module compares the entries that the sinks of the asynchronous logger get with those that a
synchronous logger builds in the call of `write`. The backend builds its entries on the worker, so they
carry the id of the worker.
-/

namespace Vosp.AsyncLogger

def writeEntry (metadata : LoggerMetadataPolicy) (now : TimePoint) (thread : Thread) (record : LogRecord)
    : LogEntry where
  timestamp := metadata.timestamp now
  threadId := metadata.threadId thread.id
  level := record.level
  error := record.error

/--
The entry is the one of a synchronous logger: it was built by the publishing thread, in its call.
-/
def Delivery.AsPublished (metadata : LoggerMetadataPolicy) (delivery : Delivery) : Prop :=
  delivery.during = true ∧
    ∃ now, delivery.entry = writeEntry metadata now delivery.record.thread delivery.record

theorem Thread.id_injective : Function.Injective Thread.id := by
  intro t u h
  cases t with
  | worker =>
    cases u with
    | worker => rfl
    | client name => cases h
  | client name =>
    cases u with
    | worker => cases h
    | client name' =>
      cases h
      rfl

namespace State

variable {policy : LoggerPolicy} {metadata : LoggerMetadataPolicy} {s s' : State} {event : Event} {t : Thread}

structure SameEntries (metadata : LoggerMetadataPolicy) (s : State) : Prop where
  asPublished : ∀ delivery ∈ s.memory.history.delivered, delivery.AsPublished metadata
  sequence : ∀ thread : Thread,
    s.memory.history.delivered.filter (fun delivery => delivery.entry.threadId = thread.id) =
      s.memory.history.delivered.filter (fun delivery => delivery.record.thread = thread)

def Handed (metadata : LoggerMetadataPolicy) (s : State) : Prop :=
  ∀ delivery ∈ s.memory.history.delivered,
    delivery.entry.threadId = metadata.threadId Thread.worker.id ∧
      (delivery.record.thread = .worker → delivery.during = false)

theorem delivered_apply (op : Op) (t : Thread) (m : Memory)
    : (op.apply t m).history.delivered = m.history.delivered := by
  cases op <;> rfl

theorem Handed.step (h : s.Handed metadata) (hn : s.Nested) (hstep : Step policy metadata s event s')
    : s'.Handed metadata := by
  cases hstep with
  | @start t request hidle hworker => cases request <;> exact h
  | call hedge | work hedge =>
    simp only [Handed, setCall, delivered_apply]
    exact h
  | @hand record batch now hworker hpolicy =>
    intro delivery hdelivery
    rcases List.mem_append.mp hdelivery with hold | hnew
    . exact h delivery hold
    . rw [List.mem_singleton.mp hnew]
      refine ⟨rfl, ?_⟩
      intro hthread
      change record.thread = .worker at hthread
      have hidle := hn.idle (by rw [hworker]; rfl)
      apply decide_eq_false
      rw [hthread, hidle]
      exact fun heq => absurd heq.symm (Option.some_ne_none _)
  | _ => exact h

theorem handed (hs : (system policy metadata).Reachable s) : s.Handed metadata := by
  apply System.ReachableVia.invariant _ _ hs
  . exact fun delivery hdelivery => absurd hdelivery List.not_mem_nil
  . intro s event s' hs h _ hstep
    exact h.step (valid hs).nested (step_cases hstep)

theorem not_asPublished (hs : (system policy fullMetadataPolicy).Reachable s) {delivery : Delivery}
    (hdelivery : delivery ∈ s.memory.history.delivered)
    : ¬delivery.AsPublished fullMetadataPolicy := by
  rintro ⟨hduring, now, hentry⟩
  obtain ⟨hworker, hlate⟩ := handed hs delivery hdelivery
  have hid : Thread.worker.id = delivery.record.thread.id := by
    rw [hentry] at hworker
    exact hworker.symm
  rw [hlate (Thread.id_injective hid).symm] at hduring
  cases hduring

end State

end Vosp.AsyncLogger

namespace Vosp

open AsyncLogger

theorem async_logger_entries {policy : LoggerPolicy} {s : AsyncLogger.State}
    (hs : (AsyncLogger.system policy fullMetadataPolicy).Reachable s)
    : s.SameEntries fullMetadataPolicy ↔ s.memory.history.delivered = [] := by
  constructor
  . intro h
    rw [List.eq_nil_iff_forall_not_mem]
    intro delivery hdelivery
    exact State.not_asPublished hs hdelivery (h.asPublished delivery hdelivery)
  . intro hnone
    constructor
    . rw [hnone]
      exact fun delivery hdelivery => absurd hdelivery List.not_mem_nil
    . intro thread
      rw [hnone]
      rfl

theorem async_logger_entries_sample
    : ∃ s : AsyncLogger.State, s.memory.history.delivered.map (fun delivery => delivery.entry.threadId) = [some 0] ∧
        s.memory.history.passed = [sampleRecord] ∧
        (s.SameEntries fullMetadataPolicy ↔ s.memory.history.delivered = []) := by
  have hrun : ((AsyncLogger.system acceptAllPolicy fullMetadataPolicy).run .init sampleDelivery).map
      (fun s => decide (s.memory.history.delivered.map (fun delivery => delivery.entry.threadId) = [some 0]) &&
        decide (s.memory.history.passed = [sampleRecord])) =
        some true := by
    decide +kernel
  obtain ⟨s, hs, hp⟩ := System.exists_of_run _ hrun
  simp only [Bool.and_eq_true, decide_eq_true_eq] at hp
  exact ⟨s, hp.1, hp.2, async_logger_entries hs⟩

theorem async_logger_misattributes
    : ¬∀ s, (AsyncLogger.system acceptAllPolicy fullMetadataPolicy).Reachable s → s.SameEntries fullMetadataPolicy := by
  intro h
  have hrun : ((AsyncLogger.system acceptAllPolicy fullMetadataPolicy).run .init sampleDelivery).map
      (fun s => s.memory.history.delivered.any fun delivery =>
        decide (delivery.entry.threadId ≠ delivery.record.thread.id)) =
        some true := by
    decide +kernel
  obtain ⟨s, hs, hp⟩ := System.exists_of_run _ hrun
  obtain ⟨delivery, hdelivery, hid⟩ := List.any_eq_true.mp hp
  obtain ⟨-, now, hentry⟩ := (h s hs).asPublished delivery hdelivery
  rw [hentry] at hid
  exact of_decide_eq_true hid rfl

end Vosp
