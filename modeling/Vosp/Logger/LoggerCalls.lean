import Vosp.Lib.Merge
import Vosp.Logger.LoggerLedger

/-!
This module contains what becomes of the calls of `write`: a call has returned or is in progress, and its
record has been pushed exactly if the result is true and the filter accepts it.
-/

namespace Vosp.AsyncLogger

namespace CallPc

def active (pc : CallPc) : List LogRecord := pc.record.toList

def unpushed (pc : CallPc) : Option LogRecord :=
  match pc with
  | .write record | .writeLock record | .writeTest record | .writeSleep record | .writeCheck record
  | .writeUnlock record false | .wrote record false => some record
  | _ => none

def published (pc : CallPc) : Option LogRecord :=
  match pc with
  | .writeNotify record | .writeUnlock record true | .wrote record true => some record
  | _ => none

theorem record_of_unpushed {pc : CallPc} {record : LogRecord} (h : pc.unpushed = some record)
    : pc.record = some record := by
  cases pc
  case write | writeLock | writeTest | writeSleep | writeCheck => exact h
  case writeUnlock other result | wrote other result =>
    cases result
    . exact h
    . cases h
  all_goals cases h

end CallPc

namespace State

variable {policy : LoggerPolicy} {metadata : LoggerMetadataPolicy} {s s' : State} {event : Event} {t u : Thread}
  {record : LogRecord}

def Own (s : State) : Prop := ∀ t record, (s.call t).record = some record → record.thread = t

def Called (s : State) : Prop :=
  Merge LogRecord.thread s.memory.history.calls (s.memory.history.returned.map Prod.fst) [] (fun _ => [])
    (fun t => (s.call t).active)

def Numbered (s : State) : Prop :=
  s.memory.history.calls.map LogRecord.id = List.range s.memory.history.calls.length

theorem call_record {op : Op} {exited : Prop} {m : Memory} {pc pc' : CallPc}
    (h : CallEdge policy exited t m pc op pc')
    : pc'.record = pc.record ∧ (op.apply t m).history.returned = m.history.returned ∨
        ∃ record result, op = .returnWrite record result ∧ pc.record = some record ∧ pc' = .idle := by
  cases h
  case wrote => exact .inr ⟨_, _, rfl, rfl, rfl⟩
  all_goals exact .inl ⟨rfl, rfl⟩

theorem calls_apply (op : Op) (t : Thread) (m : Memory) : (op.apply t m).history.calls = m.history.calls := by
  cases op <;> rfl

theorem late_apply (op : Op) (t : Thread) (m : Memory) : (op.apply t m).history.late = m.history.late := by
  cases op <;> rfl

theorem returned_work {op : Op} {m : Memory} {pc pc' : WorkerPc} (h : WorkerEdge m pc op pc')
    : (op.apply .worker m).history.returned = m.history.returned := by
  cases h <;> rfl

theorem accepted_work {op : Op} {m : Memory} {pc pc' : WorkerPc} (h : WorkerEdge m pc op pc')
    : (op.apply .worker m).history.accepted = m.history.accepted := by
  cases h <;> rfl

theorem stopping_work {op : Op} {m : Memory} {pc pc' : WorkerPc} (h : WorkerEdge m pc op pc')
    : (op.apply .worker m).stopping = m.stopping := by
  cases h <;> rfl

theorem Own.step (h : s.Own) (hstep : Step policy metadata s event s') : s'.Own := by
  intro u record hu
  cases hstep with
  | @start t request hidle hworker =>
    by_cases hut : u = t
    . subst hut
      cases request with
      | write level error =>
        simp only [startCall, setCall, Function.update_self, CallPc.record, Option.some.injEq] at hu
        rw [← hu]
      | flush | shutdown =>
        simp only [startCall, setCall, Function.update_self] at hu
        cases hu
    . rw [startCall_call_of_ne hut] at hu
      exact h u record hu
  | @call t op pc hedge =>
    by_cases hut : u = t
    . subst hut
      simp only [setCall, Function.update_self] at hu
      rcases call_record hedge with ⟨hsame, -⟩ | ⟨_, _, -, -, rfl⟩
      . exact h u record (hsame ▸ hu)
      . cases hu
    . simp only [setCall, Function.update_of_ne hut] at hu
      exact h u record hu
  | _ => exact h u record hu

theorem Numbered.step (h : s.Numbered) (hstep : Step policy metadata s event s') : s'.Numbered := by
  cases hstep with
  | @start t request hidle hworker =>
    cases request with
    | write level error =>
      simp only [Numbered, startCall, setCall, Memory.startWrite, List.map_append, List.map_cons, List.map_nil,
        List.length_append, List.length_singleton, List.range_succ]
      rw [h]
    | flush | shutdown => exact h
  | call hedge | work hedge =>
    simp only [Numbered, setCall, calls_apply]
    exact h
  | _ => exact h

theorem Numbered.nodup (h : s.Numbered) : s.memory.history.calls.Nodup := by
  apply List.Nodup.of_map LogRecord.id
  rw [h]
  exact List.nodup_range

theorem Numbered.fresh (h : s.Numbered) (hid : record.id = s.memory.history.calls.length)
    : record ∉ s.memory.history.calls := by
  intro hmem
  have hlt : record.id ∈ s.memory.history.calls.map LogRecord.id := List.mem_map_of_mem hmem
  rw [h, List.mem_range, hid] at hlt
  exact Nat.lt_irrefl _ hlt

theorem active_frame {pc : CallPc} (h : pc.record = (s.call t).record)
    : (fun u => (Function.update s.call t pc u).active) = fun u => (s.call u).active := by
  funext u
  by_cases hut : u = t
  . subst hut
    rw [Function.update_self, CallPc.active, h, CallPc.active]
  . rw [Function.update_of_ne hut]

theorem active_of_ne {pc : CallPc} (u : Thread) (hut : u ≠ t)
    : (Function.update s.call t pc u).active = (s.call u).active := by
  rw [Function.update_of_ne hut]

theorem active_self {pc : CallPc} : (Function.update s.call t pc t).active = pc.active := by
  rw [Function.update_self]

theorem Called.step (h : s.Called) (hstep : Step policy metadata s event s') : s'.Called := by
  cases hstep with
  | @start t request hidle hworker =>
    have hactive : (s.call t).active = [] := by
      rw [hidle]
      rfl
    cases request with
    | write level error =>
      have hself : (Function.update s.call t
          (.write ⟨s.memory.history.calls.length, t, level, error⟩) t).active =
            [⟨s.memory.history.calls.length, t, level, error⟩] := active_self
      exact Merge.start (k := t) h rfl hactive hself active_of_ne
    | flush | shutdown =>
      unfold Called
      simp only [startCall, setCall]
      rw [active_frame (by rw [hidle]; rfl)]
      exact h
  | @call t op pc hedge =>
    unfold Called
    simp only [setCall, calls_apply]
    rcases call_record hedge with ⟨hsame, hreturned⟩ | ⟨record, result, rfl, hrecord, rfl⟩
    . rw [active_frame hsame, hreturned]
      exact h
    . have hactive : (s.call t).active = [record] := by
        rw [CallPc.active, hrecord]
        rfl
      have hself : (Function.update s.call t .idle t).active = [] := active_self
      have hpass := Merge.pass (k := t) h hactive hself active_of_ne
      simp only [Op.apply, Memory.returnWrite, List.map_append, List.map_cons, List.map_nil]
      exact hpass
  | work hedge =>
    unfold Called
    simp only [calls_apply, returned_work hedge]
    exact h
  | _ => exact h

theorem Called.mem_calls (h : s.Called) (hrecord : (s.call t).record = some record)
    : record ∈ s.memory.history.calls := by
  have hsub := (h.order t).subset
  have hmem : record ∈ (s.call t).active := by
    rw [CallPc.active, hrecord]
    exact List.mem_cons_self
  exact (List.mem_filter.mp (hsub (List.mem_append_right _ hmem))).1

theorem Called.not_returned (h : s.Called) (hown : s.Own) (hnumbered : s.Numbered)
    (hrecord : (s.call t).record = some record)
    : record ∉ s.memory.history.returned.map Prod.fst := by
  have htotal := h.total record
  have hle := List.nodup_iff_count_le_one.mp hnumbered.nodup record
  have hactive : 0 < (s.call record.thread).active.count record := by
    rw [hown t record hrecord, CallPc.active, hrecord, List.count_pos_iff]
    exact List.mem_cons_self
  rw [← List.count_eq_zero]
  omega

structure Fate (policy : LoggerPolicy) (s : State) : Prop where
  sub : s.memory.history.accepted ⊆ s.memory.history.calls
  nodup : s.memory.history.accepted.Nodup
  unpushed : ∀ t record, (s.call t).unpushed = some record → record ∉ s.memory.history.accepted
  published : ∀ t record, (s.call t).published = some record → policy record.level = true →
    record ∈ s.memory.history.accepted
  refused : ∀ record, (record, false) ∈ s.memory.history.returned → record ∉ s.memory.history.accepted
  kept : ∀ record, (record, true) ∈ s.memory.history.returned → policy record.level = true →
    record ∈ s.memory.history.accepted
  late : ∀ record ∈ s.memory.history.late,
    s.memory.stopping = true ∧ record ∉ s.memory.history.accepted

theorem Fate.move (h : s.Fate policy) {op : Op} {pc : CallPc}
    (haccepted : (op.apply t s.memory).history.accepted = s.memory.history.accepted)
    (hreturned : (op.apply t s.memory).history.returned = s.memory.history.returned)
    (hstopping : s.memory.stopping = true → (op.apply t s.memory).stopping = true)
    (hunpushed : pc.unpushed = none ∨ pc.unpushed = (s.call t).unpushed)
    (hpublished : pc.published = none ∨ pc.published = (s.call t).published ∨
      ∀ record, pc.published = some record → policy record.level = false)
    : (({ s with memory := op.apply t s.memory } : State).setCall t pc).Fate policy where
  sub := by
    simp only [setCall, haccepted, calls_apply]
    exact h.sub
  nodup := by
    simp only [setCall, haccepted]
    exact h.nodup
  unpushed := by
    intro u record hu
    simp only [setCall, haccepted] at hu ⊢
    by_cases hut : u = t
    . subst hut
      rw [Function.update_self] at hu
      rcases hunpushed with hnone | hsame
      . rw [hnone] at hu
        cases hu
      . exact h.unpushed u record (hsame ▸ hu)
    . rw [Function.update_of_ne hut] at hu
      exact h.unpushed u record hu
  published := by
    intro u record hu hpolicy
    simp only [setCall, haccepted] at hu ⊢
    by_cases hut : u = t
    . subst hut
      rw [Function.update_self] at hu
      rcases hpublished with hnone | hsame | hfiltered
      . rw [hnone] at hu
        cases hu
      . exact h.published u record (hsame ▸ hu) hpolicy
      . rw [hfiltered record hu] at hpolicy
        cases hpolicy
    . rw [Function.update_of_ne hut] at hu
      exact h.published u record hu hpolicy
  refused := by
    simp only [setCall, haccepted, hreturned]
    exact h.refused
  kept := by
    simp only [setCall, haccepted, hreturned]
    exact h.kept
  late := by
    simp only [setCall, haccepted, late_apply]
    exact fun record hrecord => ⟨hstopping (h.late record hrecord).1, (h.late record hrecord).2⟩

theorem Fate.push (h : s.Fate policy) (hown : s.Own) (hc : s.Called) (hn : s.Numbered)
    (hpc : s.call t = .writeCheck record) (hstopping : s.memory.stopping = false)
    : (({ s with memory := s.memory.push record } : State).setCall t (.writeNotify record)).Fate policy where
  sub := by
    intro other hother
    rcases List.mem_append.mp hother with hold | hnew
    . exact h.sub hold
    . rw [List.mem_singleton.mp hnew]
      exact hc.mem_calls (t := t) (by rw [hpc]; rfl)
  nodup := by
    simp only [setCall, Memory.push]
    rw [List.nodup_append]
    refine ⟨h.nodup, by simp, ?_⟩
    rintro other hother _ hrecord rfl
    rw [List.mem_singleton.mp hrecord] at hother
    exact h.unpushed t record (by rw [hpc]; rfl) hother
  unpushed := by
    intro u other hu
    simp only [setCall, Memory.push] at hu ⊢
    by_cases hut : u = t
    . subst hut
      rw [Function.update_self] at hu
      cases hu
    . rw [Function.update_of_ne hut] at hu
      rw [List.mem_append, List.mem_singleton, not_or]
      refine ⟨h.unpushed u other hu, ?_⟩
      rintro rfl
      have hu' := hown u other (CallPc.record_of_unpushed hu)
      have ht := hown t other (by rw [hpc]; rfl)
      exact hut (hu'.symm.trans ht)
  published := by
    intro u other hu hpolicy
    simp only [setCall, Memory.push] at hu ⊢
    by_cases hut : u = t
    . subst hut
      rw [Function.update_self] at hu
      cases hu
      exact List.mem_append_right _ List.mem_cons_self
    . rw [Function.update_of_ne hut] at hu
      exact List.mem_append_left _ (h.published u other hu hpolicy)
  refused := by
    intro other hreturned
    simp only [setCall, Memory.push, List.mem_append, List.mem_singleton, not_or]
    refine ⟨h.refused other hreturned, ?_⟩
    rintro rfl
    exact hc.not_returned hown hn (t := t) (by rw [hpc]; rfl) (List.mem_map_of_mem hreturned)
  kept := fun other hreturned hpolicy => List.mem_append_left _ (h.kept other hreturned hpolicy)
  late := by
    intro other hother
    have hstop := (h.late other hother).1
    rw [hstopping] at hstop
    cases hstop

theorem Fate.returnWrite (h : s.Fate policy) {result : Bool} (hpc : s.call t = .wrote record result)
    : (({ s with memory := s.memory.returnWrite record result } : State).setCall t .idle).Fate policy where
  sub := h.sub
  nodup := h.nodup
  unpushed := by
    intro u other hu
    by_cases hut : u = t
    . subst hut
      simp only [setCall, Function.update_self] at hu
      cases hu
    . simp only [setCall, Function.update_of_ne hut] at hu
      exact h.unpushed u other hu
  published := by
    intro u other hu
    by_cases hut : u = t
    . subst hut
      simp only [setCall, Function.update_self] at hu
      cases hu
    . simp only [setCall, Function.update_of_ne hut] at hu
      exact h.published u other hu
  refused := by
    intro other hreturned
    rcases List.mem_append.mp hreturned with hold | hnew
    . exact h.refused other hold
    . cases List.mem_singleton.mp hnew
      exact h.unpushed t record (by rw [hpc]; rfl)
  kept := by
    intro other hreturned hpolicy
    rcases List.mem_append.mp hreturned with hold | hnew
    . exact h.kept other hold hpolicy
    . cases List.mem_singleton.mp hnew
      exact h.published t record (by rw [hpc]; rfl) hpolicy
  late := h.late

theorem Fate.call (h : s.Fate policy) (hown : s.Own) (hc : s.Called) (hn : s.Numbered) {op : Op} {pc : CallPc}
    (hedge : CallEdge policy (s.worker = .exited) t s.memory (s.call t) op pc)
    : (({ s with memory := op.apply t s.memory } : State).setCall t pc).Fate policy := by
  have hmove := @Fate.move policy s t h op pc
  generalize hpc : s.call t = before at hedge hmove
  cases hedge with
  | push hstopping => exact h.push hown hc hn hpc hstopping
  | wrote => exact h.returnWrite hpc
  | stop => exact hmove rfl rfl (fun _ => rfl) (.inl rfl) (.inl rfl)
  | filter hpolicy =>
    refine hmove rfl rfl id (.inl rfl) (.inr (.inr ?_))
    intro record hrecord
    cases hrecord
    exact hpolicy
  | writeNotify => exact hmove rfl rfl id (.inl rfl) (.inr (.inl rfl))
  | @writeUnlock record result => cases result <;> exact hmove rfl rfl id (.inr rfl) (.inr (.inl rfl))
  | _ => exact hmove rfl rfl id (.inr rfl) (.inl rfl)

theorem Fate.start (h : s.Fate policy) (hn : s.Numbered) (t : Thread) (request : Request)
    : (s.startCall t request).Fate policy := by
  have hunpushed : ∀ {pc : CallPc} u other, pc.unpushed = none →
      (Function.update s.call t pc u).unpushed = some other → other ∉ s.memory.history.accepted := by
    intro pc u other hnone hu
    by_cases hut : u = t
    . subst hut
      rw [Function.update_self, hnone] at hu
      cases hu
    . rw [Function.update_of_ne hut] at hu
      exact h.unpushed u other hu
  have hpublished : ∀ {pc : CallPc} u other, pc.published = none →
      (Function.update s.call t pc u).published = some other → policy other.level = true →
      other ∈ s.memory.history.accepted := by
    intro pc u other hnone hu hpolicy
    by_cases hut : u = t
    . subst hut
      rw [Function.update_self, hnone] at hu
      cases hu
    . rw [Function.update_of_ne hut] at hu
      exact h.published u other hu hpolicy
  cases request with
  | flush | shutdown =>
    exact ⟨h.sub, h.nodup, fun u other => hunpushed u other rfl, fun u other => hpublished u other rfl,
      h.refused, h.kept, h.late⟩
  | write level error =>
    have hfresh : (⟨s.memory.history.calls.length, t, level, error⟩ : LogRecord) ∉ s.memory.history.accepted :=
      fun hmem => hn.fresh rfl (h.sub hmem)
    refine ⟨fun _ hmem => List.mem_append_left _ (h.sub hmem), h.nodup, ?_, fun u other => hpublished u other rfl,
      h.refused, h.kept, ?_⟩
    . intro u other hu
      by_cases hut : u = t
      . subst hut
        simp only [startCall, setCall, Function.update_self] at hu
        cases hu
        exact hfresh
      . rw [startCall_call_of_ne hut] at hu
        exact h.unpushed u other hu
    . intro other hother
      simp only [startCall, setCall, Memory.startWrite] at hother ⊢
      split at hother
      . next hstopping =>
        rcases List.mem_append.mp hother with hold | hnew
        . exact h.late other hold
        . rw [List.mem_singleton.mp hnew]
          exact ⟨hstopping, hfresh⟩
      . exact h.late other hother

theorem Fate.step (h : s.Fate policy) (hown : s.Own) (hc : s.Called) (hn : s.Numbered)
    (hstep : Step policy metadata s event s')
    : s'.Fate policy := by
  cases hstep with
  | @start t request hidle hworker => exact h.start hn t request
  | call hedge => exact h.call hown hc hn hedge
  | work hedge =>
    constructor
    case sub =>
      simp only [accepted_work hedge, calls_apply]
      exact h.sub
    case nodup =>
      simp only [accepted_work hedge]
      exact h.nodup
    case unpushed =>
      simp only [accepted_work hedge]
      exact h.unpushed
    case published =>
      simp only [accepted_work hedge]
      exact h.published
    case refused =>
      simp only [accepted_work hedge, returned_work hedge]
      exact h.refused
    case kept =>
      simp only [accepted_work hedge, returned_work hedge]
      exact h.kept
    case late =>
      simp only [accepted_work hedge, late_apply, stopping_work hedge]
      exact h.late
  | _ => exact ⟨h.sub, h.nodup, h.unpushed, h.published, h.refused, h.kept, h.late⟩

end State

end Vosp.AsyncLogger
