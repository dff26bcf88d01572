import Vosp.Logger.LoggerCalls

/-!
This module says what the asynchronous logger delivers: the records of the successful calls of `write`,
once each and in the order in which they were pushed, all of them when a `shutdown` has returned.
-/

namespace Vosp.AsyncLogger

def CallPc.afterJoin (pc : CallPc) : Bool :=
  match pc with
  | .shutdownUnlock | .shutDown => true
  | _ => false

namespace State

variable {policy : LoggerPolicy} {metadata : LoggerMetadataPolicy} {s s' : State} {event : Event} {t u : Thread}
  {record : LogRecord}

def Joined (s : State) : Prop := ∀ t, t ≠ .worker → (s.call t).afterJoin = true → s.worker = .exited

theorem afterJoin_edge {op : Op} {exited : Prop} {m : Memory} {pc pc' : CallPc}
    (h : CallEdge policy exited t m pc op pc') (hafter : pc'.afterJoin = true)
    : pc.afterJoin = true ∨ exited ∨ m.joined = true ∨ t = .worker := by
  cases h
  case skipJoin hskip => exact .inr (.inr hskip)
  case join hexited => exact .inr (.inl hexited)
  case shutdownUnlock => exact .inl rfl
  all_goals cases hafter

theorem Joined.step (h : s.Joined) (hl : s.Ledger) (hstep : Step policy metadata s event s') : s'.Joined := by
  intro u hu hafter
  cases hstep with
  | @start t request hidle hworker =>
    rw [startCall_worker]
    by_cases hut : u = t
    . subst hut
      cases request <;> simp [startCall, setCall, CallPc.afterJoin] at hafter
    . rw [startCall_call_of_ne hut] at hafter
      exact h u hu hafter
  | @call t op pc hedge =>
    by_cases hut : u = t
    . subst hut
      simp only [setCall, Function.update_self] at hafter
      rcases afterJoin_edge hedge hafter with hbefore | hexited | hjoined | hself
      . exact h u hu hbefore
      . exact hexited
      . exact hl.joined hjoined
      . exact absurd hself hu
    . simp only [setCall, Function.update_of_ne hut] at hafter
      exact h u hu hafter
  | work hedge =>
    rw [h u hu hafter] at hedge
    cases hedge
  | filtered hworker | hand hworker | unattached hworker | finish hworker =>
    have hexited := h u hu hafter
    rw [hworker] at hexited
    cases hexited
  | spurious => exact h u hu hafter

structure Valid (policy : LoggerPolicy) (s : State) : Prop where
  nested : s.Nested
  owned : s.Owned
  room : s.Room
  ledger : s.Ledger
  own : s.Own
  numbered : s.Numbered
  called : s.Called
  fate : s.Fate policy
  joined : s.Joined

theorem Valid.init (policy : LoggerPolicy) : State.init.Valid policy where
  nested := fun hcall => absurd rfl hcall
  owned := by
    apply Mutex.Owned.none
    intro t mutex
    cases t <;> cases mutex <;> rfl
  room := fun _ _ hcall => CallPc.noConfusion hcall
  ledger := {
    accepted := rfl
    finished := rfl
    failed := rfl
    active := rfl
    capacity := Nat.zero_le _
    exiting := nofun
    joined := nofun
  }
  own := fun _ _ hrecord => absurd hrecord (Option.some_ne_none _).symm
  numbered := rfl
  called := .init
  fate := {
    sub := List.Subset.refl _
    nodup := List.nodup_nil
    unpushed := fun _ _ hpc => absurd hpc (Option.some_ne_none _).symm
    published := fun _ _ hpc => absurd hpc (Option.some_ne_none _).symm
    refused := fun _ hmem => absurd hmem List.not_mem_nil
    kept := fun _ hmem => absurd hmem List.not_mem_nil
    late := fun _ hmem => absurd hmem List.not_mem_nil
  }
  joined := nofun

theorem Valid.step (h : s.Valid policy) (hstep : Step policy metadata s event s') : s'.Valid policy where
  nested := h.nested.step hstep
  owned := h.owned.step h.nested hstep
  room := h.room.step h.owned hstep
  ledger := h.ledger.step h.room hstep
  own := h.own.step hstep
  numbered := h.numbered.step hstep
  called := h.called.step hstep
  fate := h.fate.step h.own h.called h.numbered hstep
  joined := h.joined.step h.ledger hstep

theorem valid (hs : (system policy metadata).Reachable s) : s.Valid policy := by
  apply System.ReachableVia.invariant _ _ hs
  . exact .init policy
  . intro s event s' _ h _ hstep
    exact h.step (step_cases hstep)

def Quiescent (s : State) : Prop := s.worker.current = [] ∧ s.worker.uncounted = 0

/--
What becomes of the published records.
-/
structure Delivers (policy : LoggerPolicy) (s : State) : Prop where
  capacity : s.memory.queue.length ≤ queueCapacity
  order : s.memory.history.passed <+: s.memory.history.accepted
  published : s.memory.history.accepted ⊆ s.memory.history.calls
  once : s.memory.history.accepted.Nodup
  accepted : ∀ record, (record, true) ∈ s.memory.history.returned → policy record.level = true →
    record ∈ s.memory.history.accepted
  refused : ∀ record, (record, false) ∈ s.memory.history.returned → record ∉ s.memory.history.accepted
  late : ∀ record ∈ s.memory.history.late, record ∉ s.memory.history.accepted
  shutdown : ∀ t, t ≠ .worker → s.call t = .shutDown →
    s.worker = .exited ∧ s.memory.history.passed = s.memory.history.accepted
  failed : s.Quiescent →
    s.memory.history.passed = s.memory.history.finished.map Prod.fst ∧
      s.memory.failedRecords = failures s.memory.history.finished

theorem Ledger.passed_of_exited (h : s.Ledger) (hworker : s.worker = .exited)
    : s.memory.history.passed = s.memory.history.accepted := by
  have haccepted := h.accepted
  have hqueue := (h.exiting (by rw [hworker]; rfl)).2
  rw [hworker, hqueue] at haccepted
  simpa [WorkerPc.batch] using haccepted.symm

theorem Valid.delivers (h : s.Valid policy) : s.Delivers policy := by
  constructor
  case capacity => exact h.ledger.capacity
  case order =>
    rw [h.ledger.accepted, List.append_assoc]
    exact List.prefix_append _ _
  case published => exact h.fate.sub
  case once => exact h.fate.nodup
  case accepted => exact h.fate.kept
  case refused => exact h.fate.refused
  case late => exact fun record hrecord => (h.fate.late record hrecord).2
  case shutdown =>
    intro t ht hcall
    have hexited := h.joined t ht (by rw [hcall]; rfl)
    exact ⟨hexited, h.ledger.passed_of_exited hexited⟩
  case failed =>
    rintro ⟨hcurrent, huncounted⟩
    have hfinished := h.ledger.finished
    have hfailed := h.ledger.failed
    rw [hcurrent, List.append_nil] at hfinished
    rw [huncounted, Nat.add_zero] at hfailed
    exact ⟨hfinished, hfailed⟩

end State

end Vosp.AsyncLogger

namespace Vosp

open AsyncLogger

theorem async_logger_delivers {policy : LoggerPolicy} {metadata : LoggerMetadataPolicy} {s : AsyncLogger.State}
    (hs : (AsyncLogger.system policy metadata).Reachable s)
    : s.Delivers policy :=
  (State.valid hs).delivers

def sampleError : Error where
  category := .network
  code := 7
  message := ascii "a"

def sampleRecord : LogRecord := ⟨0, .client 1, .info, sampleError⟩

def sampleDelivery : List Event :=
  .call (.client 1) (.write .info sampleError) :: List.replicate 7 (.step (.client 1)) ++
    List.replicate 5 .work ++ [.backend 5 true, .finish (.result false)] ++ List.replicate 6 .work

def sampleShutdown : List Event :=
  sampleDelivery ++ .call (.client 2) .shutdown :: List.replicate 6 (.step (.client 2)) ++
    List.replicate 5 .work ++ List.replicate 2 (.step (.client 2))

theorem async_logger_delivers_sample
    : ∃ s : AsyncLogger.State, s.call (.client 2) = .shutDown ∧ s.memory.history.passed = [sampleRecord] ∧
        s.memory.failedRecords = 1 ∧ s.Delivers acceptAllPolicy := by
  have hrun : ((AsyncLogger.system acceptAllPolicy fullMetadataPolicy).run .init sampleShutdown).map
      (fun s => decide (s.call (.client 2) = .shutDown) &&
        (decide (s.memory.history.passed = [sampleRecord]) && decide (s.memory.failedRecords = 1))) =
        some true := by
    decide +kernel
  obtain ⟨s, hs, hp⟩ := System.exists_of_run _ hrun
  simp only [Bool.and_eq_true, decide_eq_true_eq] at hp
  exact ⟨s, hp.1, hp.2.1, hp.2.2, async_logger_delivers hs⟩

end Vosp
