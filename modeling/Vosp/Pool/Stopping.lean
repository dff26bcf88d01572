import Vosp.Pool.Settlement

/-!
This module contains what follows from the stop bit: nothing is accepted any more, no thread falls
asleep on the word, and a worker exits only when the queue is empty for good.
-/

namespace Vosp.Pool

variable {cfg : Config} {C : Type}

def Pc.exiting (pc : Pc cfg) : Bool :=
  match pc with
  | .workerExit | .exited => true
  | _ => false

def Pc.stopped (pc : Pc cfg) : Bool :=
  match pc with
  | .cancelLock _ caller _ | .cancelTry _ caller _ | .cancelBackOff _ caller _ | .cancelLoad _ caller
  | .cancelSlot _ caller _ _ | .cancelPublish _ caller _ | .cancelActive _ caller _
  | .cancelIdle _ caller _ | .cancelEpoch _ caller _ | .cancelEpochNotify _ caller _
  | .cancelNotify _ caller _ | .cancelUnlockProducer _ caller _ | .cancelUnlockConsumer _ caller _ =>
    match caller with
    | .clearQueue => false
    | .signalShutdown => true
  | .signalUnlock .. | .workersLock _ | .workersRead _ | .workersStop .. | .signalNotify ..
  | .signalReturn .. | .joinLock | .joinSwap | .joinUnlock _ | .join _ => true
  | _ => false

def Pc.returning (pc : Pc cfg) : Bool :=
  match pc with
  | .signalReturn .. => true
  | _ => false

theorem Pc.stopped_of_returning {pc : Pc cfg} (h : pc.returning = true) : pc.stopped = true := by
  cases pc
  all_goals first | rfl | cases h

def Pc.observes (pc : Pc cfg) : Option (Word cfg) :=
  match pc with
  | .spaceWait _ _ observed | .workerWait observed => some observed
  | _ => none

namespace Edge

variable {t : Thread cfg C} {m : Memory cfg C} {pc pc' : Pc cfg} {op : Op cfg} {observed : Word cfg}

theorem exiting (h : Edge t m pc op pc') (hpc : pc'.exiting = true)
    : pc.exiting = true ∨ m.pendingTasks = 0 ∧ m.isStopping = true := by
  cases h
  case stateLoadExit hpending hstopping => exact .inr ⟨hpending, hstopping⟩
  all_goals first | exact .inl rfl | cases hpc

theorem stopped (h : Edge t m pc op pc') (hpc : pc'.stopped = true) : pc.stopped = true ∨ op = .setStopping := by
  cases h
  all_goals first | exact .inl hpc | exact .inr rfl | cases hpc

theorem returning (h : Edge t m pc op pc') (hpc : pc'.returning = true) : op = .notifyAll := by
  cases h
  all_goals first | rfl | cases hpc

theorem observes_running (h : Edge t m pc op pc') (hpc : pc'.observes = some observed)
    : pc.observes = some observed ∨ isStoppingState observed = false := by
  cases h
  case spaceObserveFull hfull =>
    cases hpc
    simp only [isFull, Bool.and_eq_true, Bool.not_eq_true'] at hfull
    exact .inr hfull.1
  case workerObserveEmpty hempty =>
    cases hpc
    simp only [isEmpty, Bool.and_eq_true, Bool.not_eq_true'] at hempty
    exact .inr hempty.2
  all_goals first | exact .inl hpc | cases hpc

theorem observes_of_sleep (h : Edge t m pc (.sleep observed) pc') : pc.observes = some observed := by
  cases h
  all_goals rfl

theorem running_of_publish {n : Nat} (h : Edge t m pc (.publish n) pc') (hproducing : pc.Producing m)
    : m.isStopping = false := by
  cases h with
  | slotPublish => exact hproducing.2.2

end Edge

section

variable [DecidableEq C] {t : Thread cfg C} {choice : Choice cfg C} {op : Op cfg}
  {m m' : Memory cfg C}

theorem Effect.accepted_eq (h : Effect t choice op m m') (hop : ∀ n, op ≠ .publish n)
    : m'.history.accepted = m.history.accepted := by
  cases h
  case publish => exact absurd rfl (hop _)
  case cancel hcancel =>
    obtain ⟨_, _, rfl⟩ := Memory.cancel_eq hcancel
    rfl
  case complete hcomplete =>
    obtain ⟨_, _, rfl⟩ := Memory.complete_eq hcomplete
    rfl
  all_goals rfl

theorem Effect.signalled_eq (h : Effect t choice op m m') (hop : ∀ mode, op ≠ .signalled mode)
    : m'.history.signalled = m.history.signalled := by
  cases h
  case signalled => exact absurd rfl (hop _)
  case cancel hcancel =>
    obtain ⟨_, _, rfl⟩ := Memory.cancel_eq hcancel
    rfl
  case complete hcomplete =>
    obtain ⟨_, _, rfl⟩ := Memory.complete_eq hcomplete
    rfl
  all_goals rfl

theorem Effect.asleep (h : Effect t choice op m m') {u : Thread cfg C} (hu : m'.stateSleeper u = true)
    : m.stateSleeper u = true ∨ u = t ∧ op = .sleep m.queueState := by
  cases h
  case sleep heq =>
    by_cases hut : u = t
    . subst heq
      exact .inr ⟨hut, rfl⟩
    . left
      simpa [Memory.setStateSleeper, hut] using hu
  case unblock sleeper _ =>
    left
    by_cases hut : u = sleeper
    . simp [Memory.setStateSleeper, hut] at hu
    . simpa [Memory.setStateSleeper, hut] using hu
  case notifyAll => cases hu
  case cancel hcancel =>
    obtain ⟨_, _, rfl⟩ := Memory.cancel_eq hcancel
    exact .inl hu
  case complete hcomplete =>
    obtain ⟨_, _, rfl⟩ := Memory.complete_eq hcomplete
    exact .inl hu
  all_goals exact .inl hu

end

variable [Fintype C] [DecidableEq C]

namespace State

variable {s s' : State cfg C} {event : Event cfg C} {t : Thread cfg C}

theorem accepted_step (hs : (system cfg C).Reachable s) (hstopping : s.memory.isStopping = true)
    (h : (system cfg C).step s event = some s')
    : s'.memory.history.accepted = s.memory.history.accepted ∧ s'.memory.isStopping = true := by
  cases step_cases h with
  | spurious => exact ⟨rfl, hstopping⟩
  | thread t choice hedge heffect =>
    refine ⟨heffect.accepted_eq ?_, ?_⟩
    . rintro n rfl
      have hrunning := hedge.running_of_publish ((counted hs).producing t)
      rw [hstopping] at hrunning
      cases hrunning
    . show Memory.isStopping _ = true
      rw [isStopping_eq hs hedge heffect, hstopping, Bool.true_or]

theorem drained_step {choice : Choice cfg C} {op : Op cfg} {m' : Memory cfg C} {pc' : Pc cfg}
    (hs : (system cfg C).Reachable s) (hedge : Edge t s.memory (s.pc t) op pc')
    (heffect : Effect t choice op s.memory m')
    (h : s.memory.pendingTasks = 0 ∧ s.memory.isStopping = true)
    : m'.pendingTasks = 0 ∧ m'.isStopping = true := by
  have hpublished : op.published = 0 := by
    cases op
    case publish =>
      have hrunning := hedge.running_of_publish ((counted hs).producing t)
      rw [h.2] at hrunning
      cases hrunning
    all_goals rfl
  have hpending := pending_add hs hedge heffect
  refine ⟨by omega, ?_⟩
  rw [isStopping_eq hs hedge heffect, h.2, Bool.true_or]

theorem drained (hs : (system cfg C).Reachable s)
    : ∀ t, (s.pc t).exiting = true → s.memory.pendingTasks = 0 ∧ s.memory.isStopping = true := by
  apply reachable_induction _ _ _ hs
  . rintro (_ | _) h
    all_goals cases h
  . intro s t choice op pc' m' hs h hedge heffect
    apply forall_update (fun _ pc => pc.exiting = true → m'.pendingTasks = 0 ∧ m'.isStopping = true)
    . intro hexiting
      apply drained_step hs hedge heffect
      cases hedge.exiting hexiting with
      | inl hbefore => exact h t hbefore
      | inr hempty => exact hempty
    . intro u _ hexiting
      exact drained_step hs hedge heffect (h u hexiting)
  . intro s t _ h
    exact h

theorem observes_running (hs : (system cfg C).Reachable s)
    : ∀ t observed, (s.pc t).observes = some observed → isStoppingState observed = false := by
  apply reachable_induction _ _ _ hs
  . rintro (_ | _) observed h
    all_goals cases h
  . intro s t choice op pc' m' _ h hedge _
    apply forall_update (fun _ pc => ∀ observed, pc.observes = some observed → isStoppingState observed = false)
    . intro observed hobserved
      cases hedge.observes_running hobserved with
      | inl hbefore => exact h t observed hbefore
      | inr hrunning => exact hrunning
    . exact fun u _ => h u
  . intro s t _ h
    exact h

theorem stopping_of_stopped (hs : (system cfg C).Reachable s)
    : ∀ t, (s.pc t).stopped = true → s.memory.isStopping = true := by
  apply reachable_induction _ _ _ hs
  . rintro (_ | _) h
    all_goals cases h
  . intro s t choice op pc' m' hs h hedge heffect
    have hstopping := isStopping_eq hs hedge heffect
    apply forall_update (fun _ pc => pc.stopped = true → m'.isStopping = true)
    . intro hstopped
      rw [hstopping]
      cases hedge.stopped hstopped with
      | inl hbefore => rw [h t hbefore, Bool.true_or]
      | inr hop =>
        rw [hop]
        exact Bool.or_true _
    . intro u _ hstopped
      rw [hstopping, h u hstopped, Bool.true_or]
  . intro s t _ h
    exact h

theorem stopping_of_signalled (hs : (system cfg C).Reachable s)
    : s.memory.history.signalled ≠ [] → s.memory.isStopping = true := by
  apply reachable_induction _ _ _ hs
  . exact fun h => absurd rfl h
  . intro s t choice op pc' m' hs h hedge heffect hsignalled
    show m'.isStopping = true
    rw [isStopping_eq hs hedge heffect]
    by_cases hop : ∃ mode, op = .signalled mode
    . obtain ⟨mode, rfl⟩ := hop
      have hstopped : (s.pc t).stopped = true := by
        generalize s.pc t = pc at hedge
        cases hedge
        all_goals rfl
      rw [stopping_of_stopped hs t hstopped, Bool.true_or]
    . simp only [not_exists] at hop
      simp only [heffect.signalled_eq hop] at hsignalled
      rw [h hsignalled, Bool.true_or]
  . intro s t _ h
    exact h

theorem awake_step {choice : Choice cfg C} {op : Op cfg} {m' : Memory cfg C} {pc' : Pc cfg}
    (hs : (system cfg C).Reachable s) (hedge : Edge t s.memory (s.pc t) op pc')
    (heffect : Effect t choice op s.memory m') (hstopping : s.memory.isStopping = true)
    (hawake : ∀ u, s.memory.stateSleeper u = false) (u : Thread cfg C)
    : m'.stateSleeper u = false := by
  rw [← Bool.not_eq_true]
  intro hasleep
  cases heffect.asleep hasleep with
  | inl hbefore =>
    rw [hawake u] at hbefore
    cases hbefore
  | inr hsleep =>
    rw [hsleep.2] at hedge
    have hrunning := observes_running hs t _ hedge.observes_of_sleep
    have hstopping : isStoppingState s.memory.queueState = true := hstopping
    rw [hrunning] at hstopping
    cases hstopping

theorem awake_of_returning (hs : (system cfg C).Reachable s)
    : ∀ t, (s.pc t).returning = true → ∀ u, s.memory.stateSleeper u = false := by
  apply reachable_induction _ _ _ hs
  . rintro (_ | _) h
    all_goals cases h
  . intro s t choice op pc' m' hs h hedge heffect
    apply forall_update (fun _ pc => pc.returning = true → ∀ u, m'.stateSleeper u = false)
    . intro hreturning u
      cases hedge.returning hreturning
      cases heffect
      rfl
    . intro v _ hreturning
      have hstopped : (s.pc v).stopped = true := Pc.stopped_of_returning hreturning
      exact awake_step hs hedge heffect (stopping_of_stopped hs v hstopped) (h v hreturning)
  . intro s t _ h v hreturning u
    have hawake := h v hreturning u
    by_cases hut : u = t
    . simp [Memory.setEpochSleeper, Memory.setStateSleeper, hut]
    . simpa [Memory.setEpochSleeper, Memory.setStateSleeper, hut] using hawake

theorem awake_of_signalled (hs : (system cfg C).Reachable s)
    : s.memory.history.signalled ≠ [] → ∀ u, s.memory.stateSleeper u = false := by
  apply reachable_induction _ _ _ hs
  . exact fun h => absurd rfl h
  . intro s t choice op pc' m' hs h hedge heffect hsignalled
    by_cases hop : ∃ mode, op = .signalled mode
    . obtain ⟨mode, rfl⟩ := hop
      have hreturning : (s.pc t).returning = true := by
        generalize s.pc t = pc at hedge
        cases hedge
        all_goals rfl
      apply awake_step hs hedge heffect _ (awake_of_returning hs t hreturning)
      exact stopping_of_stopped hs t (Pc.stopped_of_returning hreturning)
    . simp only [not_exists] at hop
      simp only [heffect.signalled_eq hop] at hsignalled
      exact awake_step hs hedge heffect (stopping_of_signalled hs hsignalled) (h hsignalled)
  . intro s t _ h hsignalled u
    have hawake := h hsignalled u
    by_cases hut : u = t
    . simp [Memory.setEpochSleeper, Memory.setStateSleeper, hut]
    . simpa [Memory.setEpochSleeper, Memory.setStateSleeper, hut] using hawake

end State

end Vosp.Pool
