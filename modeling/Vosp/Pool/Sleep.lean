import Vosp.Pool.Cancellation

/-!
This module contains the threads that sleep on `queue_state_`: a producer sleeps only on a word that
says that the queue is full, a worker only on one that says that it is empty. The counters of the
waiting threads are the numbers of threads between their increment and decrement.
-/

namespace Vosp.Pool

variable {cfg : Config} {C : Type}

namespace Pc

def group (pc : Pc cfg) : Option Group :=
  match pc with
  | .spaceObserve .. | .spaceWait .. | .spaceDelist .. => some .producers
  | .workerObserve | .workerWait _ | .workerDelist => some .workers
  | .epochLoad _ | .idleRecheck .. | .epochWait .. | .idleDelist _ => some .idle
  | _ => none

def enlisted (pc : Pc cfg) (group : Group) : Nat := if pc.group = some group then 1 else 0

def Observing (pc : Pc cfg) : Prop :=
  match pc with
  | .spaceWait _ _ observed => isFull observed = true
  | .workerWait observed => isEmpty observed = true
  | _ => True

def notifies (pc : Pc cfg) (m : Memory cfg C) : Bool :=
  match pc with
  | .producerUnlock .. | .workersWaiting .. => m.waiting .workers ≠ 0
  | .consumerUnlock _ | .producersWaiting _ => m.waiting .producers ≠ 0
  | .workersNotify .. | .producersNotify _ | .cancelActive .. | .cancelIdle .. | .cancelEpoch ..
  | .cancelEpochNotify .. | .cancelNotify .. | .signalNotify .. => true
  | _ => false

theorem enlisted_of_group {pc : Pc cfg} {group : Group} (h : pc.group = some group)
    : pc.enlisted group = 1 :=
  if_pos h

end Pc

namespace Edge

variable {t : Thread cfg C} {m : Memory cfg C} {pc pc' : Pc cfg} {op : Op cfg} {g : Group}

theorem group_enlist (h : Edge t m pc (.enlist g) pc') : pc.group = none ∧ pc'.group = some g := by
  cases h
  all_goals exact ⟨rfl, rfl⟩

theorem group_delist (h : Edge t m pc (.delist g) pc') : pc.group = some g ∧ pc'.group = none := by
  cases h
  all_goals exact ⟨rfl, rfl⟩

theorem group_eq (h : Edge t m pc op pc') (henlist : ∀ g, op ≠ .enlist g)
    (hdelist : ∀ g, op ≠ .delist g)
    : pc'.group = pc.group := by
  cases h
  all_goals
    first
    | rfl
    | exact absurd rfl (henlist _)
    | exact absurd rfl (hdelist _)

theorem observing (h : Edge t m pc op pc') (hpc : pc.Observing) : pc'.Observing := by
  cases h
  case spaceObserveFull hfull => exact hfull
  case workerObserveEmpty hempty => exact hempty
  all_goals first | exact hpc | trivial

theorem awake_of_observes {observed : Word cfg} (h : Edge t m pc op pc')
    (hpc : pc.observes = some observed) (hop : ∀ observed, op ≠ .sleep observed)
    : m.stateSleeper t = false := by
  cases h
  case spaceWake hawake => exact hawake
  case workerWake hawake => exact hawake
  all_goals first | exact absurd rfl (hop _) | cases hpc

theorem observes_sleep {observed : Word cfg} (h : Edge t m pc (.sleep observed) pc')
    : pc.observes = some observed ∧ pc'.observes = some observed := by
  cases h
  all_goals exact ⟨rfl, rfl⟩

end Edge

section

variable [DecidableEq C] {t : Thread cfg C} {choice : Choice cfg C} {op : Op cfg}
  {m m' : Memory cfg C}

theorem Memory.asleep_self {asleep : Bool} : (m.setStateSleeper t asleep).stateSleeper t = asleep :=
  Function.update_self _ _ _

theorem Memory.asleep_of_ne {u : Thread cfg C} {asleep : Bool} (h : u ≠ t)
    : (m.setStateSleeper t asleep).stateSleeper u = m.stateSleeper u :=
  Function.update_of_ne h _ _

theorem Effect.waiting_eq (h : Effect t choice op m m') (henlist : ∀ g, op ≠ .enlist g)
    (hdelist : ∀ g, op ≠ .delist g)
    : m'.waiting = m.waiting := by
  cases h
  case enlist => exact absurd rfl (henlist _)
  case delist => exact absurd rfl (hdelist _)
  case cancel hcancel =>
    obtain ⟨_, _, rfl⟩ := Memory.cancel_eq hcancel
    rfl
  case complete hcomplete =>
    obtain ⟨_, _, rfl⟩ := Memory.complete_eq hcomplete
    rfl
  all_goals rfl

theorem Edge.enlisted_add {pc pc' : Pc cfg} {g : Group} (h : Edge t m pc op pc')
    (heffect : Effect t choice op m m') (hle : pc.enlisted g ≤ m.waiting g)
    : m'.waiting g + pc.enlisted g = m.waiting g + pc'.enlisted g := by
  unfold Pc.enlisted at *
  by_cases henlist : ∃ g', op = .enlist g'
  . obtain ⟨g', rfl⟩ := henlist
    obtain ⟨hgroup, hgroup'⟩ := h.group_enlist
    cases heffect
    by_cases hg : g = g'
    . simp [hg, hgroup, hgroup', Memory.setWaiting]
    . simp [hg, Ne.symm hg, hgroup, hgroup', Memory.setWaiting]
  . by_cases hdelist : ∃ g', op = .delist g'
    . obtain ⟨g', rfl⟩ := hdelist
      obtain ⟨hgroup, hgroup'⟩ := h.group_delist
      cases heffect
      by_cases hg : g = g'
      . subst hg
        simp only [hgroup, if_true] at hle
        simp [hgroup, hgroup', Memory.setWaiting]
        omega
      . simp [hg, Ne.symm hg, hgroup, hgroup', Memory.setWaiting]
    . simp only [not_exists] at henlist hdelist
      rw [heffect.waiting_eq henlist hdelist, h.group_eq henlist hdelist]

end

variable [Fintype C] [DecidableEq C]

namespace State

variable {s : State cfg C}

theorem waiting_eq (hs : (system cfg C).Reachable s)
    : ∀ g, s.memory.waiting g = ∑ t, (s.pc t).enlisted g := by
  apply reachable_induction _ _ _ hs
  . intro g
    symm
    apply Count.sum_eq_zero_iff.mpr
    rintro (_ | _)
    all_goals rfl
  . intro s t choice op pc' m' _ h hedge heffect g
    have hle := Count.le_sum (fun u => (s.pc u).enlisted g) t
    have hsum := Count.sum_update (fun pc : Pc cfg => pc.enlisted g) s.pc t pc'
    rw [← h g] at hle hsum
    have hadd := hedge.enlisted_add heffect hle
    simp only at hsum ⊢
    omega
  . intro s t _ h
    exact h

theorem waiting_pos (hs : (system cfg C).Reachable s) {t : Thread cfg C} {g : Group}
    (h : (s.pc t).group = some g)
    : s.memory.waiting g ≠ 0 := by
  have hle := Count.le_sum (fun u => (s.pc u).enlisted g) t
  rw [← waiting_eq hs] at hle
  simp only [Pc.enlisted_of_group h] at hle
  omega

theorem observing (hs : (system cfg C).Reachable s) : ∀ t, (s.pc t).Observing := by
  apply reachable_induction _ _ _ hs
  . rintro (_ | _)
    all_goals trivial
  . intro s t choice op pc' m' _ h hedge _
    exact forall_update (fun _ pc => pc.Observing) (hedge.observing (h t)) (fun u _ => h u)
  . intro s t _ h
    exact h

theorem observes_of_asleep (hs : (system cfg C).Reachable s)
    : ∀ t, s.memory.stateSleeper t = true → ∃ observed, (s.pc t).observes = some observed := by
  apply reachable_induction _ _ _ hs
  . nofun
  . intro s t choice op pc' m' _ h hedge heffect
    apply forall_update (fun u pc => m'.stateSleeper u = true → ∃ observed, pc.observes = some observed)
    . intro hasleep
      by_cases hsleep : ∃ observed, op = .sleep observed
      . obtain ⟨observed, rfl⟩ := hsleep
        exact ⟨observed, hedge.observes_sleep.2⟩
      . simp only [not_exists] at hsleep
        cases heffect.asleep hasleep with
        | inl hbefore =>
          obtain ⟨observed, hobserved⟩ := h t hbefore
          rw [hedge.awake_of_observes hobserved hsleep] at hbefore
          cases hbefore
        | inr hself => exact absurd hself.2 (hsleep _)
    . intro u hu hasleep
      cases heffect.asleep hasleep with
      | inl hbefore => exact h u hbefore
      | inr hself => exact absurd hself.1 hu
  . intro s t _ h u hasleep
    apply h u
    by_cases hut : u = t
    . simp [Memory.setEpochSleeper, Memory.setStateSleeper, hut] at hasleep
    . simpa [Memory.setEpochSleeper, Memory.setStateSleeper, hut] using hasleep

theorem awake_of_edge {t : Thread cfg C} {choice : Choice cfg C} {op : Op cfg} {m' : Memory cfg C}
    {pc' : Pc cfg} (hs : (system cfg C).Reachable s) (hedge : Edge t s.memory (s.pc t) op pc')
    (heffect : Effect t choice op s.memory m')
    : s.memory.stateSleeper t = false := by
  rw [← Bool.not_eq_true]
  intro hasleep
  obtain ⟨observed, hobserved⟩ := observes_of_asleep hs t hasleep
  by_cases hsleep : ∃ observed, op = .sleep observed
  . obtain ⟨_, rfl⟩ := hsleep
    cases heffect with
    | sleep hawake =>
      rw [hawake] at hasleep
      cases hasleep
  . simp only [not_exists] at hsleep
    rw [hedge.awake_of_observes hobserved hsleep] at hasleep
    cases hasleep

end State

end Vosp.Pool
