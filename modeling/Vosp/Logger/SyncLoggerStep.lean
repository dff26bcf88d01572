import Vosp.Logger.SyncLogger

/-!
This module says once what a step of the synchronous logger can do, and which calls hold the mutex of the
registry of sinks.
-/

namespace Vosp.SyncLogger

inductive Edge (config : Config) (call : Call) (m : Memory) : CallPc → Memory → CallPc → Prop where
  | attachNull
    : Edge config call m .attachNull (m.effect call (.attach none) (.result false)) (.leave (.attach none) false)
  | attachLock (slot : SinkSlot) (hfree : m.owner = none)
    : Edge config call m (.attachLock slot) { m with owner := some call } (.attachTest slot)
  | attachFail (slot : SinkSlot) (hregistered : ∃ registered ∈ m.sinks, registered.sink = slot.sink)
    : Edge config call m (.attachTest slot) (m.effect call (.attach (some slot)) (.result false))
        (.unlock (.attach (some slot)) false)
  | attachTest (slot : SinkSlot) (hnew : ∀ registered ∈ m.sinks, registered.sink ≠ slot.sink)
    : Edge config call m (.attachTest slot) m (.attachPush slot)
  | attachPush (slot : SinkSlot)
    : Edge config call m (.attachPush slot) { m with sinks := m.sinks ++ [slot] } (.refresh (.attach (some slot)))
  | detachLock (sink : LogSink) (hfree : m.owner = none)
    : Edge config call m (.detachLock sink) { m with owner := some call } (.detachErase sink)
  | detachFail (sink : LogSink) (hnone : ∀ registered ∈ m.sinks, registered.sink ≠ sink)
    : Edge config call m (.detachErase sink) (m.effect call (.detach sink) (.result false))
        (.unlock (.detach sink) false)
  | detachErase (sink : LogSink) (hregistered : ∃ registered ∈ m.sinks, registered.sink = sink)
    : Edge config call m (.detachErase sink) { m with sinks := m.sinks.filter fun slot => slot.sink ≠ sink }
        (.refresh (.detach sink))
  | refresh (operation : Operation)
    : Edge config call m (.refresh operation)
        ({ m with singleNonOwningSink := refreshSingleSinkFastPath m.sinks }.effect call operation (.result true))
        (.unlock operation true)
  | unlock (operation : Operation) (result : Bool)
    : Edge config call m (.unlock operation result) (m.release.finish call) (.returned operation (.result result))
  | leave (operation : Operation) (result : Bool)
    : Edge config call m (.leave operation result) (m.finish call) (.returned operation (.result result))
  | accept (level : Level) (error : Error) : Edge config call m (.write level error) m (.stamp level error)
  | filter (level : Level) (error : Error)
    : Edge config call m (.write level error) (m.finish call) (.returned .write .filtered)
  | stamp (level : Level) (error : Error) (entry : LogEntry) : Edge config call m (.stamp level error) m (.load entry)
  | loadFast (entry : LogEntry) (sink : LogSink) (hsink : m.singleNonOwningSink = some sink)
    : Edge config call m (.load entry) (m.effect call .write (.selected (Selection.fast sink).slots))
        (.callbackLock entry (.fast sink))
  | load (entry : LogEntry) (hnone : m.singleNonOwningSink = none)
    : Edge config call m (.load entry) m (.readLock entry)
  | readLock (entry : LogEntry) (hfree : m.owner = none)
    : Edge config call m (.readLock entry) { m with owner := some call } (.read entry)
  | read (entry : LogEntry)
    : Edge config call m (.read entry) (m.effect call .write (.selected (select m.sinks).slots))
        (.readUnlock entry (select m.sinks))
  | readEmpty (entry : LogEntry)
    : Edge config call m (.readUnlock entry .empty) (m.release.finish call)
        (.returned .write (.wrote .empty (some false)))
  | readUnlock (entry : LogEntry) (selection : Selection) (hselection : selection ≠ .empty)
    : Edge config call m (.readUnlock entry selection) m.release (.callbackLock entry selection)
  | callbackLock (entry : LogEntry) (selection : Selection) (owners : List Call)
    : Edge config call m (.callbackLock entry selection) { m with callbackOwners := owners }
        (.deliver entry selection (selection.slots.map SinkSlot.sink) true)
  | deliver (entry : LogEntry) (selection : Selection) (sink : LogSink) (remaining : List LogSink) (accepted : Bool)
    : Edge config call m (.deliver entry selection (sink :: remaining) accepted) (m.invoke call sink entry)
        (.inCallback entry selection remaining accepted)
  | delivered (entry : LogEntry) (selection : Selection) (accepted : Bool)
    : Edge config call m (.deliver entry selection [] accepted) m (.callbackUnlock selection (some accepted))
  | callbackUnlock (selection : Selection) (accepted : Option Bool) (owners : List Call)
    : Edge config call m (.callbackUnlock selection accepted) ({ m with callbackOwners := owners }.finish call)
        (.returned .write (.wrote selection accepted))

inductive State.Step (config : Config) (s : State) : Event → State → Prop where
  | start {call : Call} (request : Request) (hidle : s.call call = .idle)
    : Step config s (.call call request) ({ s with memory := s.memory.start call }.setCall call request.entry)
  | call {call : Call} {m : Memory} {pc : CallPc} {now : TimePoint}
      (hedge : Edge config call s.memory (s.call call) m pc)
    : Step config s (.step call now) ({ s with memory := m }.setCall call pc)
  | accepted {call : Call} (hcall : s.call call = .inCallback entry selection remaining soFar) (accepted : Bool)
    : Step config s (.finish call (some accepted))
        (s.setCall call (.deliver entry selection remaining (accepted && soFar)))
  | thrown {call : Call} (hcall : s.call call = .inCallback entry selection remaining soFar)
    : Step config s (.finish call none) (s.setCall call (.callbackUnlock selection none))

variable {config : Config} {call : Call} {m m' : Memory} {now : TimePoint} {pc pc' : CallPc}

theorem acquire_eq_some : m.acquire call = some m' ↔ m.owner = none ∧ { m with owner := some call } = m' := by
  unfold Memory.acquire
  split
  . next hfree => simp [hfree]
  . next hheld => simp [hheld]

theorem edge_of_step (h : CallPc.step config m call now pc = some (m', pc')) : Edge config call m pc m' pc' := by
  cases pc <;> simp only [CallPc.step] at h
  case attachLock | detachLock | readLock =>
    obtain ⟨m₁, hacquire, hpair⟩ := Option.map_eq_some_iff.mp h
    obtain ⟨hfree, rfl⟩ := acquire_eq_some.mp hacquire
    cases hpair
    constructor
    exact hfree
  case attachTest slot =>
    split at h
    . next hregistered =>
      cases h
      exact .attachFail slot (by simpa using hregistered)
    . next hnew =>
      cases h
      exact .attachTest slot (by simpa using hnew)
  case detachErase sink =>
    have hlength := List.length_filter_le (fun slot => decide (slot.sink ≠ sink)) m.sinks
    split at h
    . next hnone =>
      cases h
      apply Edge.detachFail
      have hsame := List.length_filter_eq_length_iff.mp (Nat.le_antisymm hlength (Nat.sub_eq_zero_iff_le.mp hnone))
      exact fun registered hmem => of_decide_eq_true (hsame registered hmem)
    . next hsome =>
      cases h
      apply Edge.detachErase
      by_contra hnone
      rw [List.filter_eq_self.mpr] at hsome
      . exact hsome (Nat.sub_self _)
      . exact fun registered hmem => decide_eq_true fun hsink => hnone ⟨registered, hmem, hsink⟩
  case write level error =>
    split at h
    . cases h
      exact .accept level error
    . cases h
      exact .filter level error
  case load entry =>
    split at h
    . next sink hsink =>
      cases h
      exact .loadFast entry sink hsink
    . next hnone =>
      cases h
      exact .load entry hnone
  case readUnlock entry selection =>
    split at h
    . next hempty =>
      cases h
      subst hempty
      exact .readEmpty entry
    . next hselection =>
      cases h
      exact .readUnlock entry selection hselection
  case callbackLock entry selection =>
    split at h
    . obtain ⟨m₁, hacquire, hpair⟩ := Option.map_eq_some_iff.mp h
      unfold Memory.acquireCallback at hacquire
      split at hacquire
      . cases hacquire
        cases hpair
        exact .callbackLock entry selection _
      . cases hacquire
    . cases h
      exact .callbackLock entry selection m.callbackOwners
  case deliver entry selection remaining accepted =>
    cases remaining <;> cases h <;> constructor
  case callbackUnlock selection accepted =>
    cases h
    split
    . exact .callbackUnlock selection accepted _
    . exact .callbackUnlock selection accepted m.callbackOwners
  case idle | inCallback | returned => cases h
  all_goals
    cases h
    constructor

def CallPc.holds (pc : CallPc) : Bool :=
  match pc with
  | .attachTest _ | .attachPush _ | .detachErase _ | .refresh _ | .unlock _ _ | .read _ | .readUnlock _ _ => true
  | _ => false

theorem Edge.owner (h : Edge config call m pc m' pc')
    : (m.owner = none ∧ m'.owner = some call ∧ pc.holds = false ∧ pc'.holds = true) ∨
        (m'.owner = none ∧ pc.holds = true ∧ pc'.holds = false) ∨ (m'.owner = m.owner ∧ pc'.holds = pc.holds) := by
  cases h
  case attachLock hfree | detachLock hfree | readLock hfree => exact .inl ⟨hfree, rfl, rfl, rfl⟩
  case unlock | readEmpty | readUnlock => exact .inr (.inl ⟨rfl, rfl, rfl⟩)
  all_goals exact .inr (.inr ⟨rfl, rfl⟩)

namespace State

variable {s s' : State} {event : Event} {other : Call}

theorem setCall_self : (s.setCall call pc).call call = pc := Function.update_self _ _ _

theorem setCall_of_ne (h : other ≠ call) : (s.setCall call pc).call other = s.call other := Function.update_of_ne h _ _

theorem step_cases (h : s.step config event = some s') : Step config s event s' := by
  cases event <;> simp only [step] at h
  case call call request =>
    split at h
    . next hidle =>
      cases h
      exact .start request hidle
    . cases h
  case step call now =>
    obtain ⟨⟨m, pc⟩, hstep, rfl⟩ := Option.map_eq_some_iff.mp h
    exact .call (edge_of_step hstep)
  case finish call accepted =>
    unfold stepFinish at h
    split at h
    . next entry selection remaining soFar hcall =>
      cases accepted with
      | some accepted =>
        cases h
        exact .accepted hcall accepted
      | none =>
        cases h
        exact .thrown hcall
    . cases h

def Owned (s : State) : Prop := ∀ call, (s.call call).holds = true ↔ s.memory.owner = some call

theorem Owned.unique (h : s.Owned) (hcall : (s.call call).holds = true) (hother : (s.call other).holds = true)
    : call = other := by
  rw [h] at hcall hother
  rw [hcall] at hother
  exact Option.some.inj hother

theorem Owned.same (h : s.Owned) (howner : m.owner = s.memory.owner) (hholds : pc.holds = (s.call call).holds)
    : (({ s with memory := m } : State).setCall call pc).Owned := by
  intro u
  simp only [setCall, howner, ← h u]
  by_cases hu : u = call
  . rw [hu, Function.update_self, hholds]
  . rw [Function.update_of_ne hu]

theorem Owned.step (h : s.Owned) (hstep : Step config s event s') : s'.Owned := by
  cases hstep with
  | @start call request hidle =>
    apply h.same rfl
    rw [hidle]
    rcases request with _ | (_ | _) | _ | _ <;> rfl
  | @call call m pc now hedge =>
    rcases hedge.owner with ⟨hfree, howner, -, hpc⟩ | ⟨howner, hheld, hpc⟩ | ⟨howner, hholds⟩
    . intro u
      simp only [setCall, howner, Option.some.injEq]
      by_cases hu : u = call
      . rw [hu, Function.update_self, hpc]
        simp
      . rw [Function.update_of_ne hu, h u, hfree]
        simp [Ne.symm hu]
    . intro u
      simp only [setCall, howner]
      by_cases hu : u = call
      . rw [hu, Function.update_self, hpc]
        simp
      . rw [Function.update_of_ne hu]
        have hnot : ¬(s.call u).holds = true := fun hholds => hu (h.unique hholds hheld)
        simp [hnot]
    . exact h.same howner hholds
  | accepted hcall | thrown hcall =>
    apply h.same rfl
    rw [hcall]
    rfl

end State

end Vosp.SyncLogger
