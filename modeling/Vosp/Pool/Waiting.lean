import Vosp.Pool.Idle
import Vosp.Pool.Sleep

/-!
This module contains the proof that no caller of `wait` stays asleep while the pool is idle. Whoever
brings the number of unfinished tasks to zero adds to the epoch before it leaves, unless nobody waits,
and whoever adds to the epoch notifies those that sleep on an older one.
-/

namespace Vosp.Pool

variable {cfg : Config} {C : Type}

namespace Pc

def epoch (pc : Pc cfg) : Option Nat :=
  match pc with
  | .idleRecheck _ epoch | .epochWait _ epoch => some epoch
  | _ => none

def awaitedEpoch (pc : Pc cfg) : Option Nat :=
  match pc with
  | .epochWait _ epoch => some epoch
  | _ => none

-- The thread has updated the word and will add to the epoch if the pool is idle and somebody waits.
def announces (pc : Pc cfg) : Bool :=
  match pc with
  | .finishIdle | .finishEpoch | .cancelActive .. | .cancelIdle .. | .cancelEpoch .. => true
  | _ => false

def notifiesEpoch (pc : Pc cfg) : Bool :=
  match pc with
  | .finishEpochNotify | .cancelEpochNotify .. => true
  | _ => false

theorem group_of_epochWait {pc : Pc cfg} {epoch : Nat} (h : pc.awaitedEpoch = some epoch)
    : pc.group = some .idle := by
  cases pc
  all_goals first | rfl | cases h

theorem epoch_of_epochWait {pc : Pc cfg} {epoch : Nat} (h : pc.awaitedEpoch = some epoch)
    : pc.epoch = some epoch := by
  cases pc
  all_goals first | exact h | cases h

end Pc

namespace Edge

variable {t : Thread cfg C} {m : Memory cfg C} {pc pc' : Pc cfg} {op : Op cfg} {e : Nat}

theorem epoch (h : Edge t m pc op pc') (hpc : pc'.epoch = some e)
    : pc.epoch = some e ∨ e = m.completionEpoch := by
  cases h
  case epochLoad =>
    cases hpc
    exact .inr rfl
  all_goals first | exact .inl hpc | cases hpc

theorem epochWait (h : Edge t m pc op pc') (hpc : pc'.awaitedEpoch = some e)
    : pc = pc' ∨ ¬ isIdle m.queueState := by
  cases h
  case idleRecheckBusy hbusy => exact .inr hbusy
  all_goals first | exact .inl rfl | cases hpc

theorem awake_of_epochWait (h : Edge t m pc op pc') (hpc : pc.awaitedEpoch = some e)
    (hop : ∀ epoch, op ≠ .sleepEpoch epoch)
    : m.epochSleeper t = false := by
  cases h
  case epochWake hawake => exact hawake
  all_goals first | exact absurd rfl (hop _) | cases hpc

theorem epochWait_of_sleep (h : Edge t m pc (.sleepEpoch e) pc') : pc'.awaitedEpoch = some e := by
  cases h
  rfl

theorem announces_of_cancelAll {n : Nat} (h : Edge t m pc (.cancelAll n) pc') : pc'.announces = true := by
  cases h
  rfl

theorem announces_of_finish {n : Nat} (h : Edge t m pc (.finish n) pc')
    (hactive : activeFromState m.queueState = n) (hpending : pendingFromState m.queueState = 0)
    : pc'.announces = true := by
  cases h with
  | finish hmore => exact absurd ⟨hactive, hpending⟩ hmore
  | finishLast => rfl

theorem active_of_finish {n : Nat} (h : Edge t m pc (.finish n) pc') : pc.active = n ∧ pc'.active = 0 := by
  cases h
  all_goals exact ⟨rfl, rfl⟩

theorem announces (h : Edge t m pc op pc') (hpc : pc.announces = true)
    (hidle : activeFromState m.queueState = 0) (hwaiting : m.waiting .idle ≠ 0)
    : pc'.announces = true ∨ op = .addEpoch := by
  cases h
  case finishIdleNone hnone => exact absurd hnone hwaiting
  case cancelIdleNone hnone => exact absurd hnone hwaiting
  case cancelActiveBusy hbusy => exact absurd hidle hbusy
  all_goals first | exact .inl rfl | exact .inr rfl | cases hpc

theorem notifiesEpoch_of_addEpoch (h : Edge t m pc .addEpoch pc') : pc'.notifiesEpoch = true := by
  cases h
  all_goals rfl

theorem notifiesEpoch (h : Edge t m pc op pc') (hpc : pc.notifiesEpoch = true) : op = .notifyEpoch := by
  cases h
  all_goals first | rfl | cases hpc

end Edge

section

variable [DecidableEq C] {t : Thread cfg C} {choice : Choice cfg C} {op : Op cfg}
  {m m' : Memory cfg C}

theorem Effect.completionEpoch_eq (h : Effect t choice op m m') (hop : op ≠ .addEpoch)
    : m'.completionEpoch = m.completionEpoch := by
  cases h
  case addEpoch => exact absurd rfl hop
  case cancel hcancel =>
    obtain ⟨_, _, rfl⟩ := Memory.cancel_eq hcancel
    rfl
  case complete hcomplete =>
    obtain ⟨_, _, rfl⟩ := Memory.complete_eq hcomplete
    rfl
  all_goals rfl

theorem Effect.completionEpoch_le (h : Effect t choice op m m') : m.completionEpoch ≤ m'.completionEpoch := by
  by_cases hop : op = .addEpoch
  . subst hop
    cases h
    exact Nat.le_succ _
  . rw [h.completionEpoch_eq hop]

theorem Effect.epochAsleep (h : Effect t choice op m m') {u : Thread cfg C}
    (hu : m'.epochSleeper u = true)
    : m.epochSleeper u = true ∧ op ≠ .notifyEpoch ∨ u = t ∧ op = .sleepEpoch m.completionEpoch := by
  cases h
  case sleepEpoch heq =>
    by_cases hut : u = t
    . subst heq
      exact .inr ⟨hut, rfl⟩
    . refine .inl ⟨?_, fun heq => by cases heq⟩
      simpa [Memory.setEpochSleeper, hut] using hu
  case notifyEpoch => cases hu
  case cancel hcancel =>
    obtain ⟨_, _, rfl⟩ := Memory.cancel_eq hcancel
    exact .inl ⟨hu, fun heq => by cases heq⟩
  case complete hcomplete =>
    obtain ⟨_, _, rfl⟩ := Memory.complete_eq hcomplete
    exact .inl ⟨hu, fun heq => by cases heq⟩
  all_goals exact .inl ⟨hu, fun heq => by cases heq⟩

end

variable [Fintype C] [DecidableEq C]

namespace State

variable {s : State cfg C} {t : Thread cfg C} {choice : Choice cfg C} {op : Op cfg}
  {m' : Memory cfg C} {pc' : Pc cfg}

theorem epochWait_of_asleep (hs : (system cfg C).Reachable s)
    : ∀ t, s.memory.epochSleeper t = true → ∃ epoch, (s.pc t).awaitedEpoch = some epoch := by
  apply reachable_induction _ _ _ hs
  . nofun
  . intro s t choice op pc' m' _ h hedge heffect
    apply forall_update (fun u pc => m'.epochSleeper u = true → ∃ epoch, pc.awaitedEpoch = some epoch)
    . intro hasleep
      by_cases hsleep : ∃ epoch, op = .sleepEpoch epoch
      . obtain ⟨epoch, rfl⟩ := hsleep
        exact ⟨epoch, hedge.epochWait_of_sleep⟩
      . simp only [not_exists] at hsleep
        cases heffect.epochAsleep hasleep with
        | inl hbefore =>
          obtain ⟨epoch, hepoch⟩ := h t hbefore.1
          rw [hedge.awake_of_epochWait hepoch hsleep] at hbefore
          cases hbefore.1
        | inr hself => exact absurd hself.2 (hsleep _)
    . intro u hu hasleep
      cases heffect.epochAsleep hasleep with
      | inl hbefore => exact h u hbefore.1
      | inr hself => exact absurd hself.1 hu
  . intro s t _ h u hasleep
    apply h u
    by_cases hut : u = t
    . simp [Memory.setEpochSleeper, hut] at hasleep
    . simpa [Memory.setEpochSleeper, Memory.setStateSleeper, hut] using hasleep

def unfinished (s : State cfg C) : Nat := s.memory.pendingTasks + ∑ t, (s.pc t).active

theorem isIdle_of_unfinished (hs : (system cfg C).Reachable s) (h : s.unfinished = 0)
    : activeFromState s.memory.queueState = 0 ∧ isIdle s.memory.queueState = true := by
  have hactive : s.memory.activeTasks = _ := (counted hs).active_eq
  unfold unfinished at h
  have hsum : ∑ t, (s.pc t).active = 0 := by omega
  have hpending : s.memory.pendingTasks = 0 := by omega
  rw [hsum] at hactive
  refine ⟨hactive, ?_⟩
  simp only [isIdle, Bool.and_eq_true, beq_iff_eq]
  exact ⟨hpending, hactive⟩

theorem announces_of_step (hs : (system cfg C).Reachable s) (hedge : Edge t s.memory (s.pc t) op pc')
    (heffect : Effect t choice op s.memory m') (hbusy : s.unfinished ≠ 0)
    (hidle : State.unfinished { memory := m', pc := Function.update s.pc t pc' } = 0)
    : pc'.announces = true := by
  have hpending := pending_add hs hedge heffect
  have hsum := Count.sum_update Pc.active s.pc t pc'
  have hown := hedge.active_add
  unfold unfinished at hbusy hidle
  have hcounts : op.dropped ≠ 0 ∨ op.finished ≠ 0 := by
    simp only at hidle hsum
    omega
  cases op
  case cancelAll => exact hedge.announces_of_cancelAll
  case finish n =>
    obtain ⟨hactive, hactive'⟩ := hedge.active_of_finish
    have hclaiming := ((counted hs).claiming t).active_le
    have hword : s.memory.activeTasks = _ := (counted hs).active_eq
    have hsize : bulkClaimSize = 16 := rfl
    simp only [Op.dropped, Op.claimed, Op.published, Op.finished] at hpending hown hcounts
    simp only at hidle hsum
    have hsum' : ∑ t, (s.pc t).active = n := by omega
    apply hedge.announces_of_finish
    . have hmod : s.memory.activeTasks = n := by
        rw [hword, hsum']
        apply Nat.mod_eq_of_lt
        omega
      exact hmod
    . have hzero : s.memory.pendingTasks = 0 := by omega
      exact hzero
  all_goals simp [Op.dropped, Op.finished] at hcounts

structure Announced (s : State cfg C) : Prop where
  epoch_le : ∀ t epoch, (s.pc t).epoch = some epoch → epoch ≤ s.memory.completionEpoch
  announced : ∀ t, (s.pc t).awaitedEpoch = some s.memory.completionEpoch →
    s.unfinished ≠ 0 ∨ ∃ u, (s.pc u).announces = true
  notified : ∀ t epoch, s.memory.epochSleeper t = true → (s.pc t).awaitedEpoch = some epoch →
    epoch ≠ s.memory.completionEpoch → ∃ u, (s.pc u).notifiesEpoch = true

namespace Announced

theorem epoch_le_step (h : s.Announced) (hedge : Edge t s.memory (s.pc t) op pc')
    (heffect : Effect t choice op s.memory m')
    : ∀ u epoch, (Function.update s.pc t pc' u).epoch = some epoch → epoch ≤ m'.completionEpoch := by
  apply forall_update (fun _ pc => ∀ epoch, pc.epoch = some epoch → epoch ≤ m'.completionEpoch)
  . intro epoch hepoch
    cases hedge.epoch hepoch with
    | inl hbefore => exact Nat.le_trans (h.epoch_le t epoch hbefore) heffect.completionEpoch_le
    | inr hnow =>
      rw [hnow]
      exact heffect.completionEpoch_le
  . intro u _ epoch hepoch
    exact Nat.le_trans (h.epoch_le u epoch hepoch) heffect.completionEpoch_le

theorem epochWait_before (hs : (system cfg C).Reachable s) (h : s.Announced)
    (hedge : Edge t s.memory (s.pc t) op pc') (heffect : Effect t choice op s.memory m')
    (hidle : s.unfinished = 0) {u : Thread cfg C}
    (hu : (Function.update s.pc t pc' u).awaitedEpoch = some m'.completionEpoch)
    : (s.pc u).awaitedEpoch = some s.memory.completionEpoch ∧ op ≠ .addEpoch := by
  have hbefore : (s.pc u).awaitedEpoch = some m'.completionEpoch := by
    by_cases hut : u = t
    . subst hut
      rw [Function.update_self] at hu
      cases hedge.epochWait hu with
      | inl hsame => rwa [hsame]
      | inr hbusy => exact absurd (isIdle_of_unfinished hs hidle).2 hbusy
    . rwa [Function.update_of_ne hut] at hu
  have hop : op ≠ .addEpoch := by
    intro hop
    subst hop
    have hle := h.epoch_le u _ (Pc.epoch_of_epochWait hbefore)
    cases heffect
    simp only at hle
    omega
  rw [heffect.completionEpoch_eq hop] at hbefore
  exact ⟨hbefore, hop⟩

theorem announced_step (hs : (system cfg C).Reachable s) (h : s.Announced)
    (hedge : Edge t s.memory (s.pc t) op pc') (heffect : Effect t choice op s.memory m')
    {u : Thread cfg C} (hu : (Function.update s.pc t pc' u).awaitedEpoch = some m'.completionEpoch)
    : State.unfinished { memory := m', pc := Function.update s.pc t pc' } ≠ 0 ∨
        ∃ v, (Function.update s.pc t pc' v).announces = true := by
  by_cases hidle' : State.unfinished { memory := m', pc := Function.update s.pc t pc' } = 0
  . right
    by_cases hidle : s.unfinished = 0
    . obtain ⟨hbefore, hop⟩ := epochWait_before hs h hedge heffect hidle hu
      cases h.announced u hbefore with
      | inl hbusy => exact absurd hidle hbusy
      | inr hannounces =>
        obtain ⟨v, hv⟩ := hannounces
        by_cases hvt : v = t
        . subst hvt
          have hwaiting := waiting_pos hs (Pc.group_of_epochWait hbefore)
          cases hedge.announces hv (isIdle_of_unfinished hs hidle).1 hwaiting with
          | inl hstays =>
            refine ⟨v, ?_⟩
            rwa [Function.update_self]
          | inr hadd => exact absurd hadd hop
        . refine ⟨v, ?_⟩
          rwa [Function.update_of_ne hvt]
    . refine ⟨t, ?_⟩
      rw [Function.update_self]
      exact announces_of_step hs hedge heffect hidle hidle'
  . exact .inl hidle'

theorem notified_step (hs : (system cfg C).Reachable s) (h : s.Announced)
    (hedge : Edge t s.memory (s.pc t) op pc') (heffect : Effect t choice op s.memory m')
    {u : Thread cfg C} {epoch : Nat} (hasleep : m'.epochSleeper u = true)
    (hu : (Function.update s.pc t pc' u).awaitedEpoch = some epoch) (hne : epoch ≠ m'.completionEpoch)
    : ∃ v, (Function.update s.pc t pc' v).notifiesEpoch = true := by
  by_cases hadd : op = .addEpoch
  . subst hadd
    refine ⟨t, ?_⟩
    rw [Function.update_self]
    exact hedge.notifiesEpoch_of_addEpoch
  rw [heffect.completionEpoch_eq hadd] at hne
  rcases heffect.epochAsleep hasleep with ⟨hbefore, hop⟩ | ⟨rfl, rfl⟩
  . have hut : u ≠ t := by
      intro hut
      subst hut
      obtain ⟨epoch', hepoch⟩ := epochWait_of_asleep hs u hbefore
      by_cases hsleep : ∃ epoch, op = .sleepEpoch epoch
      . obtain ⟨epoch, rfl⟩ := hsleep
        cases heffect with
        | sleepEpoch hawake =>
          rw [hawake] at hbefore
          cases hbefore
      . simp only [not_exists] at hsleep
        rw [hedge.awake_of_epochWait hepoch hsleep] at hbefore
        cases hbefore
    rw [Function.update_of_ne hut] at hu
    obtain ⟨v, hv⟩ := h.notified u epoch hbefore hu hne
    have hvt : v ≠ t := by
      intro hvt
      subst hvt
      exact hop (hedge.notifiesEpoch hv)
    refine ⟨v, ?_⟩
    rwa [Function.update_of_ne hvt]
  . rw [Function.update_self, hedge.epochWait_of_sleep] at hu
    cases hu
    exact absurd rfl hne

end Announced

theorem announced (hs : (system cfg C).Reachable s) : s.Announced := by
  apply reachable_induction _ _ _ hs
  . constructor
    . rintro (_ | _)
      all_goals nofun
    . rintro (_ | _)
      all_goals nofun
    . nofun
  . intro s t choice op pc' m' hs h hedge heffect
    constructor
    . exact h.epoch_le_step hedge heffect
    . intro u hu
      exact h.announced_step hs hedge heffect hu
    . intro u epoch hasleep hu hne
      exact h.notified_step hs hedge heffect hasleep hu hne
  . intro s t _ h
    constructor
    . exact h.epoch_le
    . exact h.announced
    . intro u epoch hasleep
      apply h.notified u epoch
      by_cases hut : u = t
      . simp [Memory.setEpochSleeper, hut] at hasleep
      . simpa [Memory.setEpochSleeper, Memory.setStateSleeper, hut] using hasleep

theorem unfinished_of_idle (hs : (system cfg C).Reachable s) (h : s.Idle) : s.unfinished = 0 := by
  have hlength := congrArg List.length h.queue_eq
  rw [List.length_append, List.length_nil] at hlength
  have hpending := (counted hs).pending_eq
  have hsum : ∑ t, (s.pc t).active = 0 := Count.sum_eq_zero_iff.mpr h.active_eq
  unfold unfinished
  omega

end State

theorem idle_waiters_are_notified {s : State cfg C} (hs : (system cfg C).Reachable s) (hidle : s.Idle)
    {t : Thread cfg C} (hasleep : s.memory.epochSleeper t = true)
    : ∃ u, (s.pc u).announces = true ∨ (s.pc u).notifiesEpoch = true := by
  have h := State.announced hs
  obtain ⟨epoch, hepoch⟩ := State.epochWait_of_asleep hs t hasleep
  by_cases heq : epoch = s.memory.completionEpoch
  . subst heq
    cases h.announced t hepoch with
    | inl hbusy => exact absurd (State.unfinished_of_idle hs hidle) hbusy
    | inr hannounces =>
      obtain ⟨u, hu⟩ := hannounces
      exact ⟨u, .inl hu⟩
  . obtain ⟨u, hu⟩ := h.notified t epoch hasleep hepoch heq
    exact ⟨u, .inr hu⟩

theorem idle_waiters_are_notified_tiny
    : ∃ s : State tinyConfig (Fin 2), s.Idle ∧ s.memory.epochSleeper (.client 1) = true ∧
        ∃ u, (s.pc u).announces = true ∨ (s.pc u).notifiesEpoch = true := by
  have hrun : ((system tinyConfig (Fin 2)).run State.init
      (.step (.client 0) (.call .dispatch) :: Event.goes (.client 0) 8 ++
        .step (.client 1) (.call .wait) :: Event.goes (.client 1) 5 ++
        Event.goes (.worker (0 : Fin 1)) 9 ++ .step (.worker (0 : Fin 1)) (.ret (.result (.ok ()))) ::
        Event.goes (.worker (0 : Fin 1)) 3)).map
      (fun s => (s.memory.history.leaving ++ s.memory.history.queue).isEmpty &&
        decide (∀ t, (s.pc t).hands = []) && decide (∀ t, (s.pc t).active = 0) &&
        s.memory.epochSleeper (.client 1)) = some true := by
    decide +kernel
  obtain ⟨s, hs, hp⟩ := System.exists_of_run _ hrun
  simp only [Bool.and_eq_true, decide_eq_true_eq, List.isEmpty_iff] at hp
  obtain ⟨⟨⟨hqueue, hhands⟩, hactive⟩, hasleep⟩ := hp
  have hidle : s.Idle := ⟨hqueue, hhands, hactive⟩
  exact ⟨s, hidle, hasleep, idle_waiters_are_notified hs hidle hasleep⟩

end Vosp.Pool
