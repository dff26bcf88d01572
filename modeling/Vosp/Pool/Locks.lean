import Vosp.Lib.Mutex
import Vosp.Pool.Edge

/-!
This module contains the locks that a thread holds at a program point, the locks that an operation
requires, and the proof that the two agree with the owners in the memory in every reachable state.
-/

namespace Vosp.Pool

variable {cfg : Config} {C : Type}

def Context.byOwner (c : Context) (caller : Caller) : Bool :=
  match caller with
  | .clearQueue => false
  | .signalShutdown => c.isNone

def Side.isMutex (side : Side) (mutex : Mutex) : Bool := side.mutex = mutex

def Pc.holdsProducer (pc : Pc cfg) : Bool :=
  match pc with
  | .producerLoad .. | .producerReject .. | .producerRetry .. | .slotWrite .. | .producerUnlock ..
  | .cancelLoad .. | .cancelSlot .. | .cancelPublish .. | .cancelActive .. | .cancelIdle ..
  | .cancelEpoch .. | .cancelEpochNotify .. | .cancelNotify .. | .cancelUnlockProducer ..
  | .signalStop .. | .signalUnlock .. => true
  | .cancelTry _ _ first | .cancelBackOff _ _ first => first.isMutex .producer
  | _ => false

def Pc.holdsConsumer (pc : Pc cfg) : Bool :=
  match pc with
  | .cancelLoad .. | .cancelSlot .. | .cancelPublish .. | .cancelActive .. | .cancelIdle ..
  | .cancelEpoch .. | .cancelEpochNotify .. | .cancelNotify .. | .cancelUnlockProducer ..
  | .cancelUnlockConsumer .. | .consumerLoad | .consumerRetry | .headPeek .. | .scalarTake
  | .bulkLoop .. | .bulkPeek .. | .bulkTake .. | .claim .. | .consumerUnlock .. => true
  | .cancelTry _ _ first | .cancelBackOff _ _ first => first.isMutex .consumer
  | _ => false

def Pc.holdsWorkers (pc : Pc cfg) : Bool :=
  match pc with
  | .workersRead .. | .workersStop .. | .joinSwap | .joinUnlock .. => true
  | _ => false

def Pc.holdsShutdown (pc : Pc cfg) : Bool :=
  match pc with
  | .cancelLock c caller _ | .cancelTry c caller _ | .cancelBackOff c caller _ | .cancelLoad c caller
  | .cancelSlot c caller .. | .cancelPublish c caller _ | .cancelActive c caller _
  | .cancelIdle c caller _ | .cancelEpoch c caller _ | .cancelEpochNotify c caller _
  | .cancelNotify c caller _ | .cancelUnlockProducer c caller _
  | .cancelUnlockConsumer c caller _ => c.byOwner caller
  | .signalLock c _ | .signalStop c _ | .signalUnlock c _ | .workersLock c | .workersRead c
  | .workersStop c _ | .signalNotify c _ | .signalReturn c _ => c.isNone
  | .joinLock | .joinSwap | .joinUnlock .. | .join .. => true
  | _ => false

def Pc.holds (pc : Pc cfg) (mutex : Mutex) : Bool :=
  match mutex with
  | .producer => pc.holdsProducer
  | .consumer => pc.holdsConsumer
  | .workers => pc.holdsWorkers
  | .shutdown => pc.holdsShutdown

def Op.needs (op : Op cfg) (mutex : Mutex) : Bool :=
  match op with
  | .unlock other => mutex = other
  | .emplace .. | .publish .. | .setStopping => mutex = .producer
  | .vacate .. | .load | .claim .. => mutex = .consumer
  | .cancel .. | .resetTail | .cancelAll .. => mutex = .producer || mutex = .consumer
  | .requestStop .. | .swapWorkers => mutex = .workers
  | _ => false

namespace Edge

variable {t : Thread cfg C} {m : Memory cfg C} {pc pc' : Pc cfg} {op : Op cfg} {mutex : Mutex}

theorem needs (h : Edge t m pc op pc') (hneeds : op.needs mutex = true) : pc.holds mutex = true := by
  cases h
  all_goals
    first
    | rfl
    | cases hneeds
    | cases mutex <;> first | rfl | cases hneeds
    | cases ‹Side› <;> cases mutex <;> first | rfl | cases hneeds

theorem holds_lock (h : Edge t m pc (.lock mutex) pc')
    : ∀ other, pc'.holds other = (pc.holds other || decide (other = mutex)) := by
  generalize hop : Op.lock mutex = op at h
  cases h
  all_goals cases hop
  all_goals
    rintro (_ | _ | _ | _)
    all_goals
      first
      | rfl
      | exact (Bool.or_false _).symm
      | cases ‹Side› <;> first | rfl | exact (Bool.or_false _).symm

theorem holds_unlock (h : Edge t m pc (.unlock mutex) pc')
    : ∀ other, pc'.holds other = (pc.holds other && decide (other ≠ mutex)) := by
  generalize hop : Op.unlock mutex = op at h
  cases h
  all_goals cases hop
  all_goals
    rintro (_ | _ | _ | _)
    all_goals
      first
      | rfl
      | exact (Bool.and_true _).symm
      | cases ‹Side› <;> first | rfl | exact (Bool.and_true _).symm

theorem holds_eq (h : Edge t m pc op pc') (hlock : ∀ mutex, op ≠ .lock mutex)
    (hunlock : ∀ mutex, op ≠ .unlock mutex)
    : ∀ other, pc'.holds other = pc.holds other := by
  cases h
  all_goals
    first
    | exact absurd rfl (hlock _)
    | exact absurd rfl (hunlock _)
    | skip
  all_goals
    rintro (_ | _ | _ | _)
    all_goals rfl

end Edge

variable [DecidableEq C]

theorem Effect.owner_eq {t : Thread cfg C} {choice : Choice cfg C} {op : Op cfg} {m m' : Memory cfg C}
    (h : Effect t choice op m m') (hlock : ∀ mutex, op ≠ .lock mutex)
    (hunlock : ∀ mutex, op ≠ .unlock mutex)
    : m'.owner = m.owner := by
  cases h
  case lock => exact absurd rfl (hlock _)
  case unlock => exact absurd rfl (hunlock _)
  case cancel hcancel =>
    obtain ⟨_, _, rfl⟩ := Memory.cancel_eq hcancel
    rfl
  case complete hcomplete =>
    obtain ⟨_, _, rfl⟩ := Memory.complete_eq hcomplete
    rfl
  all_goals rfl

theorem Effect.owner_eq_none {t : Thread cfg C} {choice : Choice cfg C} {op : Op cfg}
    {m m' : Memory cfg C} {mutex : Mutex} (h : Effect t choice op m m') (hop : op.needs mutex = false)
    (hnone : m'.owner mutex = none)
    : m.owner mutex = none := by
  by_cases hunlock : ∃ other, op = .unlock other
  . obtain ⟨other, rfl⟩ := hunlock
    cases h
    have hne : mutex ≠ other := by simpa [Op.needs] using hop
    simpa [Memory.setOwner, hne] using hnone
  . by_cases hlock : ∃ other, op = .lock other
    . obtain ⟨other, rfl⟩ := hlock
      cases h with
      | lock hfree =>
        by_cases heq : mutex = other
        . rw [heq, hfree]
        . simpa [Memory.setOwner, heq] using hnone
    . simp only [not_exists] at hlock hunlock
      rwa [h.owner_eq hlock hunlock] at hnone

theorem Effect.eq_unlock {t u : Thread cfg C} {choice : Choice cfg C} {op : Op cfg}
    {m m' : Memory cfg C} {mutex : Mutex} (h : Effect t choice op m m')
    (howner : m.owner mutex = some u) (hnone : m'.owner mutex = none)
    : op = .unlock mutex := by
  by_cases hunlock : ∃ other, op = .unlock other
  . obtain ⟨other, rfl⟩ := hunlock
    cases h
    by_cases heq : mutex = other
    . rw [heq]
    . simp [Memory.setOwner, heq, howner] at hnone
  . by_cases hlock : ∃ other, op = .lock other
    . obtain ⟨other, rfl⟩ := hlock
      cases h
      by_cases heq : mutex = other
      . simp [Memory.setOwner, heq] at hnone
      . simp [Memory.setOwner, heq, howner] at hnone
    . simp only [not_exists] at hlock hunlock
      rw [h.owner_eq hlock hunlock, howner] at hnone
      cases hnone

def State.Locked (s : State cfg C) : Prop := Mutex.Owned (fun t => (s.pc t).holds) s.memory.owner

variable [Fintype C]

namespace State

omit [Fintype C] in
theorem pc_self {s : State cfg C} {t : Thread cfg C} {m' : Memory cfg C} {pc' : Pc cfg}
    : State.pc { memory := m', pc := Function.update s.pc t pc' } t = pc' :=
  Function.update_self _ _ _

omit [Fintype C] in
theorem pc_of_ne {s : State cfg C} {t u : Thread cfg C} {m' : Memory cfg C} {pc' : Pc cfg} (h : u ≠ t)
    : State.pc { memory := m', pc := Function.update s.pc t pc' } u = s.pc u :=
  Function.update_of_ne h _ _

omit [Fintype C] in
theorem forall_update {s : State cfg C} {t : Thread cfg C} {pc' : Pc cfg}
    (P : Thread cfg C → Pc cfg → Prop) (ht : P t pc') (hu : ∀ u, u ≠ t → P u (s.pc u))
    : ∀ u, P u (Function.update s.pc t pc' u) := by
  intro u
  by_cases h : u = t
  . subst h
    rwa [Function.update_self]
  . rw [Function.update_of_ne h]
    exact hu u h

theorem reachable_induction {I : State cfg C → Prop} (hinit : I init)
    (hthread : ∀ s t choice op pc' m', (system cfg C).Reachable s → I s →
      Edge t s.memory (s.pc t) op pc' → Effect t choice op s.memory m' →
      I { memory := m', pc := Function.update s.pc t pc' })
    (hspurious : ∀ s t, (system cfg C).Reachable s → I s →
      I { s with memory := (s.memory.setStateSleeper t false).setEpochSleeper t false })
    {s : State cfg C} (hs : (system cfg C).Reachable s)
    : I s := by
  apply System.ReachableVia.invariant hinit _ hs
  intro s event s' hs hI _ hstep
  cases step_cases hstep with
  | thread t choice hedge heffect => exact hthread s t choice _ _ _ hs hI hedge heffect
  | spurious t => exact hspurious s t hs hI

theorem locked {s : State cfg C} (hs : (system cfg C).Reachable s) : s.Locked := by
  apply reachable_induction _ _ _ hs
  . apply Mutex.Owned.none
    rintro (_ | _) (_ | _ | _ | _)
    all_goals rfl
  . intro s t choice op pc' m' _ hlocked hedge heffect
    have hother : ∀ u, u ≠ t → ((Function.update s.pc t pc') u).holds = (s.pc u).holds := by
      intro u hu
      rw [Function.update_of_ne hu]
    by_cases hlock : ∃ mutex, op = .lock mutex
    . obtain ⟨mutex, rfl⟩ := hlock
      cases heffect with
      | lock hfree =>
        apply hlocked.lock (t := t) hfree _ hother
        simpa using hedge.holds_lock
    . by_cases hunlock : ∃ mutex, op = .unlock mutex
      . obtain ⟨mutex, rfl⟩ := hunlock
        cases heffect with
        | unlock =>
          apply hlocked.unlock (t := t) _ _ hother
          . exact hedge.needs (by simp [Op.needs])
          . simpa using hedge.holds_unlock
      . simp only [not_exists] at hlock hunlock
        unfold Locked
        rw [heffect.owner_eq hlock hunlock]
        apply hlocked.frame
        intro u
        by_cases hu : u = t
        . subst hu
          funext other
          simpa using hedge.holds_eq hlock hunlock other
        . exact hother u hu
  . intro s t _ hlocked
    exact hlocked

theorem owner_of_holds {s : State cfg C} (hs : (system cfg C).Reachable s) {t : Thread cfg C}
    {mutex : Mutex} (h : (s.pc t).holds mutex = true)
    : s.memory.owner mutex = some t :=
  (locked hs t mutex).mp h

end State

theorem Edge.not_needs {s : State cfg C} (hs : (system cfg C).Reachable s) {t u : Thread cfg C}
    {op : Op cfg} {pc' : Pc cfg} {mutex : Mutex} (h : Edge t s.memory (s.pc t) op pc')
    (hholds : (s.pc u).holds mutex = true) (hne : u ≠ t)
    : op.needs mutex = false := by
  rw [← Bool.not_eq_true]
  intro hneeds
  exact hne ((State.locked hs).unique hholds (h.needs hneeds))

end Vosp.Pool
