import Vosp.Pool.Stranded

/-!
This module contains the condition under which producers sleep only while the queue is full. A claim
frees up to `bulkClaimSize` slots but issues one notification, which may also go to a worker. Enough
producers are woken as long as the notifications of claims that are left to issue cover the sleeping
producers, or together with the producers on their way into the queue cover the free slots.
-/

namespace Vosp.Pool

variable {cfg : Config} {C : Type}

namespace Pc

def slept (pc : Pc cfg) : Bool :=
  match pc.submission with
  | some (_, j) => j.slept
  | none => false

def claimNotifies (pc : Pc cfg) : Bool :=
  match pc with
  | .consumerUnlock _ | .producersWaiting _ | .producersNotify _ => true
  | _ => false

def Rested (pc : Pc cfg) : Prop :=
  match pc with
  | .producerUnlock _ j _ | .workersWaiting _ j _ | .workersNotify _ j _ | .submitted _ j => j.slept = false
  | _ => True

def sleeps (asleep : Bool) (pc : Pc cfg) : Nat := (asleep && pc.slept).toNat

def wakes (asleep : Bool) (pc : Pc cfg) : Nat := (!asleep && pc.slept).toNat

def notices (_asleep : Bool) (pc : Pc cfg) : Nat := pc.claimNotifies.toNat

def rejects (pc : Pc cfg) : Bool :=
  match pc with
  | .rejected .. | .producerReject .. => true
  | _ => false

def awaitsSpace (pc : Pc cfg) : Bool :=
  match pc with
  | .spaceWait .. => true
  | _ => false

theorem eq_spaceWait {pc : Pc cfg} (h : pc.awaitsSpace = true)
    : ∃ c j observed, pc = .spaceWait c j observed := by
  cases pc
  case spaceWait c j observed => exact ⟨c, j, observed, rfl⟩
  all_goals cases h

end Pc

def Op.movesWord (op : Op cfg) : Bool :=
  match op with
  | .sleep _ | .notifyOne | .notifyAll | .publish _ | .claim _ | .cancelAll _ | .setStopping => true
  | _ => false

namespace Edge

variable {t : Thread cfg C} {m : Memory cfg C} {pc pc' : Pc cfg} {op : Op cfg}

theorem rested (h : Edge t m pc op pc') (hpc : pc.Rested) : pc'.Rested := by
  cases h
  all_goals first | exact hpc | trivial

theorem rejects (h : Edge t m pc op pc') (hpc : pc'.rejects = true)
    : pc.rejects = true ∨ m.isStopping = true := by
  cases h
  case spaceLoadStopping hstopping => exact .inr hstopping
  case producerLoadStopping hstopping => exact .inr hstopping
  all_goals first | exact .inl rfl | cases hpc

theorem slept_eq (h : Edge t m pc op pc') (hop : op.movesWord = false) (hrested : pc.Rested)
    (hrejects : pc.rejects = false)
    : pc'.slept = pc.slept := by
  cases h
  case submittedScalar | submittedAll => exact hrested.symm
  case rejectedBulk | rejectedScalar => cases hrejects
  all_goals first | rfl | cases hop

theorem publish_pos {n : Nat} (h : Edge t m pc (.publish n) pc') (hpc : pc.Submitting)
    : 0 < n ∧ pc'.slept = false ∧ pc'.claimNotifies = pc.claimNotifies := by
  cases h with
  | slotPublish => exact ⟨by simpa using hpc.1, rfl, rfl⟩

theorem notifyOne_slept (h : Edge t m pc .notifyOne pc') (hpc : pc.Rested)
    : pc.slept = false ∧ pc'.slept = false ∧ pc'.claimNotifies = false := by
  cases h with
  | workersNotifyOne => exact ⟨hpc, hpc, rfl⟩
  | producersNotify => exact ⟨rfl, rfl, rfl⟩

theorem claimNotifies_eq (h : Edge t m pc op pc') (hop : op.movesWord = false)
    : pc'.claimNotifies = pc.claimNotifies ∨ m.waiting .producers = 0 := by
  cases h
  case producersWaitingNone hnone => exact .inr hnone
  all_goals first | exact .inl rfl | cases hop

end Edge

theorem Pc.claimNotifies_of_observes {pc : Pc cfg} {observed : Word cfg} (h : pc.observes = some observed)
    : pc.claimNotifies = false := by
  cases pc
  all_goals first | rfl | cases h

theorem Effect.stateSleeper_eq [DecidableEq C] {t : Thread cfg C} {choice : Choice cfg C} {op : Op cfg}
    {m m' : Memory cfg C} (h : Effect t choice op m m') (hop : op.movesWord = false)
    : m'.stateSleeper = m.stateSleeper := by
  cases h
  case cancel hcancel =>
    obtain ⟨_, _, rfl⟩ := Memory.cancel_eq hcancel
    rfl
  case complete hcomplete =>
    obtain ⟨_, _, rfl⟩ := Memory.complete_eq hcomplete
    rfl
  all_goals first | rfl | cases hop

theorem Op.counts_eq_zero {op : Op cfg} (h : op.movesWord = false)
    : op.published = 0 ∧ op.claimed = 0 ∧ op.dropped = 0 := by
  cases op
  all_goals first | exact ⟨rfl, rfl, rfl⟩ | cases h

variable [Fintype C] [DecidableEq C]

namespace State

variable {s s' : State cfg C} {event : Event cfg C} {t u : Thread cfg C} {choice : Choice cfg C}
  {op : Op cfg} {m' : Memory cfg C} {pc' : Pc cfg}

def total (s : State cfg C) (f : Bool → Pc cfg → Nat) : Nat :=
  ∑ t, f (s.memory.stateSleeper t) (s.pc t)

def sleeping (s : State cfg C) : Nat := s.total Pc.sleeps

def woken (s : State cfg C) : Nat := s.total Pc.wakes

def notices (s : State cfg C) : Nat := s.total Pc.notices

def freeSlots (s : State cfg C) : Nat := cfg.queueCapacity - s.memory.pendingTasks

-- More producers sleep than there are notices, and more slots are free than notices and woken
-- producers can fill.
def underNotified (s : State cfg C) (free notices : Nat) : Bool :=
  decide (notices < s.sleeping) && decide (notices + s.woken < free)

-- The event is the claim of a chunk that frees too many slots, or the notification of a claim that
-- goes to a worker although producers need it.
def starves (s : State cfg C) (event : Event cfg C) : Bool :=
  match event with
  | .step t .go =>
    match s.pc t with
    | .claim batch => s.underNotified (s.freeSlots + batch.length) (s.notices + 1)
    | _ => false
  | .step t (.unblock u) =>
    (s.pc t).claimNotifies && !(s.pc u).slept && s.underNotified s.freeSlots (s.notices - 1)
  | _ => false

def Covered (s : State cfg C) : Prop := s.sleeping ≤ s.notices ∨ s.freeSlots ≤ s.notices + s.woken

def Served (s : State cfg C) : Prop :=
  s.memory.isStopping = true ∨ s.Covered ∨ ∃ t, (s.pc t).cancelNotifies = true

theorem total_change (f : Bool → Pc cfg → Nat) {b : Bool} (hself : s'.memory.stateSleeper t = b)
    (hpc : s'.pc t = pc') (hother : ∀ v, v ≠ t → s'.memory.stateSleeper v = s.memory.stateSleeper v)
    (hpcs : ∀ v, v ≠ t → s'.pc v = s.pc v)
    : s'.total f + f (s.memory.stateSleeper t) (s.pc t) = s.total f + f b pc' := by
  have hchange := @Count.sum_change _ _ _ (fun v => f (s.memory.stateSleeper v) (s.pc v))
    (fun v => f (s'.memory.stateSleeper v) (s'.pc v)) t
    (fun v hv => by simp only [hother v hv, hpcs v hv])
  simp only [hself, hpc] at hchange
  exact hchange

theorem total_unblock (f : Bool → Pc cfg → Nat) (hne : t ≠ u)
    : State.total { memory := s.memory.setStateSleeper u false, pc := Function.update s.pc t pc' } f
          + f (s.memory.stateSleeper t) (s.pc t) + f (s.memory.stateSleeper u) (s.pc u)
        = s.total f + f (s.memory.stateSleeper t) pc' + f false (s.pc u) := by
  have hchange := @Count.sum_change_two _ _ _ (fun v => f (s.memory.stateSleeper v) (s.pc v))
    (fun v => f ((s.memory.setStateSleeper u false).stateSleeper v) (Function.update s.pc t pc' v)) t u hne
    (fun v hv hvu => by simp only [Memory.asleep_of_ne hvu, Function.update_of_ne hv])
  simp only [Memory.asleep_self, Memory.asleep_of_ne hne, Function.update_self,
    Function.update_of_ne hne.symm] at hchange
  exact hchange

theorem rested (hs : (system cfg C).Reachable s) : ∀ t, (s.pc t).Rested := by
  apply reachable_induction _ _ _ hs
  . rintro (_ | _)
    all_goals trivial
  . intro s t choice op pc' m' _ h hedge _
    exact forall_update (fun _ pc => pc.Rested) (hedge.rested (h t)) (fun u _ => h u)
  . intro s t _ h
    exact h

theorem stopping_of_rejects (hs : (system cfg C).Reachable s)
    : ∀ t, (s.pc t).rejects = true → s.memory.isStopping = true := by
  apply reachable_induction _ _ _ hs
  . rintro (_ | _) h
    all_goals cases h
  . intro s t choice op pc' m' hs h hedge heffect
    have hstopping := isStopping_eq hs hedge heffect
    apply forall_update (fun _ pc => pc.rejects = true → m'.isStopping = true)
    . intro hrejects
      cases hedge.rejects hrejects with
      | inl hbefore => rw [hstopping, h t hbefore, Bool.true_or]
      | inr hbefore => rw [hstopping, hbefore, Bool.true_or]
    . intro u _ hrejects
      rw [hstopping, h u hrejects, Bool.true_or]
  . intro s t _ h
    exact h

theorem sleeping_eq_zero (hs : (system cfg C).Reachable s) (hwaiting : s.memory.waiting .producers = 0)
    : s.sleeping = 0 := by
  apply Count.sum_eq_zero_iff.mpr
  intro t
  rw [Pc.sleeps, Bool.toNat_eq_zero, ← Bool.not_eq_true, Bool.and_eq_true]
  rintro ⟨hasleep, hslept⟩
  obtain ⟨observed, hobserves⟩ := observes_of_asleep hs t hasleep
  apply waiting_pos hs _ hwaiting
  . exact t
  . generalize s.pc t = pc at hslept hobserves
    cases pc
    all_goals first | rfl | cases hslept | cases hobserves

omit [DecidableEq C] in
theorem sleeping_eq_zero_of_awake (h : ∀ t, s.memory.stateSleeper t = false) : s.sleeping = 0 := by
  apply Count.sum_eq_zero_iff.mpr
  intro t
  rw [h t]
  rfl

omit [Fintype C] in
theorem cancelNotifies_step (h : ∃ u, (s.pc u).cancelNotifies = true) (hop : op ≠ .notifyAll)
    (hedge : Edge t s.memory (s.pc t) op pc')
    : ∃ u, (State.pc { memory := m', pc := Function.update s.pc t pc' } u).cancelNotifies = true := by
  obtain ⟨u, hu⟩ := h
  by_cases hut : u = t
  . subst hut
    refine ⟨u, ?_⟩
    rw [pc_self]
    exact (hedge.cancelNotifies hu).resolve_right hop
  . refine ⟨u, ?_⟩
    rwa [pc_of_ne hut]

theorem total_move (f : Bool → Pc cfg → Nat) (hsleep : m'.stateSleeper = s.memory.stateSleeper)
    : State.total { memory := m', pc := Function.update s.pc t pc' } f
          + f (s.memory.stateSleeper t) (s.pc t)
        = s.total f + f (s.memory.stateSleeper t) pc' := by
  apply total_change f _ pc_self
  . exact fun v _ => congrFun hsleep v
  . exact fun v hv => pc_of_ne hv
  . exact congrFun hsleep t

theorem freeSlots_add (hs : (system cfg C).Reachable s) (hedge : Edge t s.memory (s.pc t) op pc')
    (heffect : Effect t choice op s.memory m')
    : State.freeSlots { memory := m', pc := Function.update s.pc t pc' } + op.published
        = s.freeSlots + (op.claimed + op.dropped) := by
  have hcounted := counted hs
  have hpending := pending_add hs hedge heffect
  have hle := hcounted.pending_le
  have hpublished := hedge.published_le hle (hcounted.producing t)
  have hzero := op.published_or_dropped
  unfold freeSlots
  show cfg.queueCapacity - m'.pendingTasks + op.published = _
  omega

namespace Served

theorem step (hs : (system cfg C).Reachable s) (h : s.Served) (hop : op ≠ .notifyAll)
    (hedge : Edge t s.memory (s.pc t) op pc') (heffect : Effect t choice op s.memory m')
    (hcovered : s.memory.isStopping = false → s.Covered →
      State.Covered { memory := m', pc := Function.update s.pc t pc' })
    : State.Served { memory := m', pc := Function.update s.pc t pc' } := by
  have hstopping := isStopping_eq hs hedge heffect
  rcases h with hbefore | hbefore | hcancels
  . left
    show m'.isStopping = true
    rw [hstopping, hbefore, Bool.true_or]
  . cases hrunning : s.memory.isStopping with
    | true =>
      left
      show m'.isStopping = true
      rw [hstopping, hrunning, Bool.true_or]
    | false => exact .inr (.inl (hcovered hrunning hbefore))
  . exact .inr (.inr (cancelNotifies_step hcancels hop hedge))

theorem sleep {observed : Word cfg} (hs : (system cfg C).Reachable s) (h : s.Served)
    (hedge : Edge t s.memory (s.pc t) (.sleep observed) pc')
    (heffect : Effect t choice (.sleep observed) s.memory m')
    : State.Served { memory := m', pc := Function.update s.pc t pc' } := by
  apply h.step hs (by simp) hedge heffect
  intro _ hcovered
  have hfree := freeSlots_add hs hedge heffect
  cases heffect with
  | sleep hawake heq =>
    have hobserving := observing hs t
    have hchange : ∀ f, _ := fun f => @total_change cfg C _ _ s
      { memory := s.memory.setStateSleeper t true, pc := Function.update s.pc t pc' } t pc' f true
      Memory.asleep_self pc_self (fun v hv => Memory.asleep_of_ne hv) (fun v hv => pc_of_ne hv)
    have hsleeping := hchange Pc.sleeps
    have hwoken := hchange Pc.wakes
    have hnotices := hchange Pc.notices
    rw [hawake] at hsleeping hwoken hnotices
    generalize s.pc t = pc at hedge hobserving hsleeping hwoken hnotices
    cases hedge with
    | spaceSleep =>
      have hfull : isFull s.memory.queueState = true := by rwa [heq]
      simp only [isFull, Bool.and_eq_true, beq_iff_eq] at hfull
      have hzero : s.freeSlots = 0 := Nat.sub_eq_zero_of_le (Nat.le_of_eq hfull.2.symm)
      right
      exact Nat.le_trans (Nat.le_of_eq hzero) (Nat.zero_le _)
    | workerSleep =>
      simp only [Op.published, Op.claimed, Op.dropped] at hfree
      simp only [Pc.sleeps, Pc.wakes, Pc.notices, Pc.slept, Pc.submission, Pc.claimNotifies,
        Bool.and_false, Bool.toNat_false] at hsleeping hwoken hnotices
      unfold Covered sleeping woken notices at *
      omega

theorem notifyOne (hs : (system cfg C).Reachable s) (h : s.Served)
    (hok : s.starves (.step t choice) = false)
    (hedge : Edge t s.memory (s.pc t) .notifyOne pc') (heffect : Effect t choice .notifyOne s.memory m')
    : State.Served { memory := m', pc := Function.update s.pc t pc' } := by
  apply h.step hs (by simp) hedge heffect
  intro _ hcovered
  have hfree := freeSlots_add hs hedge heffect
  have hawake := awake_of_edge hs hedge heffect
  obtain ⟨hslept, hslept', hnotify'⟩ := hedge.notifyOne_slept (rested hs t)
  cases heffect with
  | notifyNone hnone =>
    left
    have hzero : State.sleeping { memory := s.memory, pc := Function.update s.pc t pc' } = 0 :=
      sleeping_eq_zero_of_awake hnone
    rw [hzero]
    exact Nat.zero_le _
  | unblock u hu =>
    have hne : t ≠ u := by
      rintro rfl
      rw [hu] at hawake
      cases hawake
    obtain ⟨observed, hobserves⟩ := observes_of_asleep hs u hu
    have hsleeping := @total_unblock cfg C _ _ s t u pc' Pc.sleeps hne
    have hwoken := @total_unblock cfg C _ _ s t u pc' Pc.wakes hne
    have hnotices := @total_unblock cfg C _ _ s t u pc' Pc.notices hne
    simp only [Pc.sleeps, Pc.wakes, Pc.notices, hawake, hu, hslept, hslept', hnotify',
      Pc.claimNotifies_of_observes hobserves, Op.published, Op.claimed, Op.dropped, Bool.toNat_false, Bool.not_true,
      Bool.not_false, Bool.true_and, Bool.false_and, Nat.add_zero] at hsleeping hwoken hnotices hfree
    simp only [starves, underNotified, Bool.and_eq_false_iff, decide_eq_false_iff_not,
      Bool.not_eq_false'] at hok
    unfold Covered sleeping woken notices at *
    cases hclaim : (s.pc t).claimNotifies with
    | false =>
      rw [hclaim] at hnotices
      cases hproducer : (s.pc u).slept
      all_goals
        rw [hproducer] at hsleeping hwoken
        simp only [Bool.toNat_false, Bool.toNat_true] at *
        omega
    | true =>
      rw [hclaim] at hnotices hok
      cases hproducer : (s.pc u).slept
      all_goals
        rw [hproducer] at hsleeping hwoken hok
        simp only [Bool.toNat_false, Bool.toNat_true, Bool.true_eq_false, Bool.false_eq_true, false_or,
          or_true] at *
        omega

theorem publish {n : Nat} (hs : (system cfg C).Reachable s) (h : s.Served)
    (hedge : Edge t s.memory (s.pc t) (.publish n) pc') (heffect : Effect t choice (.publish n) s.memory m')
    : State.Served { memory := m', pc := Function.update s.pc t pc' } := by
  apply h.step hs (by simp) hedge heffect
  intro _ hcovered
  have hfree := freeSlots_add hs hedge heffect
  have hawake := awake_of_edge hs hedge heffect
  obtain ⟨hpos, hslept', hnotify'⟩ := hedge.publish_pos ((counted hs).submitting t)
  have hsleep : m'.stateSleeper = s.memory.stateSleeper := by
    cases heffect
    rfl
  have hsleeping := @total_move cfg C _ _ s t m' pc' Pc.sleeps hsleep
  have hwoken := @total_move cfg C _ _ s t m' pc' Pc.wakes hsleep
  have hnotices := @total_move cfg C _ _ s t m' pc' Pc.notices hsleep
  have hle := Bool.toNat_le (s.pc t).slept
  simp only [Pc.sleeps, Pc.wakes, Pc.notices, hawake, hslept', hnotify', Op.published, Op.claimed, Op.dropped,
    Bool.toNat_false, Bool.not_false, Bool.true_and, Bool.false_and, Nat.add_zero] at hsleeping hwoken hnotices hfree
  unfold Covered sleeping woken notices at *
  omega

theorem claim {n : Nat} (hs : (system cfg C).Reachable s) (h : s.Served)
    (hok : s.starves (.step t choice) = false)
    (hedge : Edge t s.memory (s.pc t) (.claim n) pc') (heffect : Effect t choice (.claim n) s.memory m')
    : State.Served { memory := m', pc := Function.update s.pc t pc' } := by
  apply h.step hs (by simp) hedge heffect
  intro _ _
  have hfree := freeSlots_add hs hedge heffect
  have hsleep : m'.stateSleeper = s.memory.stateSleeper := by
    cases heffect
    rfl
  have hgo : choice = .go := by
    cases heffect
    rfl
  subst hgo
  have hsleeping := @total_move cfg C _ _ s t m' pc' Pc.sleeps hsleep
  have hwoken := @total_move cfg C _ _ s t m' pc' Pc.wakes hsleep
  have hnotices := @total_move cfg C _ _ s t m' pc' Pc.notices hsleep
  rw [starves] at hok
  generalize s.pc t = pc at hedge hsleeping hwoken hnotices hok
  cases hedge with
  | claim =>
    simp only [underNotified, Bool.and_eq_false_iff, decide_eq_false_iff_not] at hok
    simp only [Pc.sleeps, Pc.wakes, Pc.notices, Pc.slept, Pc.submission, Pc.claimNotifies, Op.published, Op.claimed,
      Op.dropped, Bool.and_false, Bool.toNat_false, Bool.toNat_true, Nat.add_zero] at hsleeping hwoken hnotices hfree
    unfold Covered sleeping woken notices at *
    omega

theorem other (hs : (system cfg C).Reachable s) (h : s.Served) (hop : op.movesWord = false)
    (hedge : Edge t s.memory (s.pc t) op pc') (heffect : Effect t choice op s.memory m')
    : State.Served { memory := m', pc := Function.update s.pc t pc' } := by
  apply h.step hs (by rintro rfl; cases hop) hedge heffect
  intro hrunning hcovered
  have hfree := freeSlots_add hs hedge heffect
  have hsleep := heffect.stateSleeper_eq hop
  have hrejects : (s.pc t).rejects = false := by
    rw [← Bool.not_eq_true]
    intro hrejects
    rw [stopping_of_rejects hs t hrejects] at hrunning
    cases hrunning
  have hslept := hedge.slept_eq hop (rested hs t) hrejects
  have hsleeping := @total_move cfg C _ _ s t m' pc' Pc.sleeps hsleep
  have hwoken := @total_move cfg C _ _ s t m' pc' Pc.wakes hsleep
  have hnotices := @total_move cfg C _ _ s t m' pc' Pc.notices hsleep
  obtain ⟨hpublished, hclaimed, hdropped⟩ := Op.counts_eq_zero hop
  simp only [Pc.sleeps, Pc.wakes, hslept, hpublished, hclaimed, hdropped, Nat.add_zero,
    Nat.add_right_cancel_iff] at hsleeping hwoken hfree
  cases hedge.claimNotifies_eq hop with
  | inl hnotify =>
    simp only [Pc.notices, hnotify, Nat.add_right_cancel_iff] at hnotices
    unfold Covered sleeping woken notices at *
    omega
  | inr hnone =>
    have hzero := sleeping_eq_zero hs hnone
    left
    unfold sleeping at *
    omega

theorem thread (hs : (system cfg C).Reachable s) (h : s.Served)
    (hok : s.starves (.step t choice) = false) (hedge : Edge t s.memory (s.pc t) op pc')
    (heffect : Effect t choice op s.memory m')
    : State.Served { memory := m', pc := Function.update s.pc t pc' } := by
  cases op
  case sleep => exact h.sleep hs hedge heffect
  case notifyOne => exact h.notifyOne hs hok hedge heffect
  case publish => exact h.publish hs hedge heffect
  case claim => exact h.claim hs hok hedge heffect
  case notifyAll =>
    refine .inr (.inl (.inl ?_))
    rw [sleeping_eq_zero_of_awake]
    . exact Nat.zero_le _
    . cases heffect
      exact fun _ => rfl
  case cancelAll =>
    refine .inr (.inr ⟨t, ?_⟩)
    rw [pc_self]
    generalize s.pc t = pc at hedge
    cases hedge
    rfl
  case setStopping =>
    left
    exact (isStopping_eq hs hedge heffect).trans (Bool.or_true _)
  all_goals exact h.other hs rfl hedge heffect

theorem spurious (h : s.Served) (t : Thread cfg C)
    : State.Served { s with memory := (s.memory.setStateSleeper t false).setEpochSleeper t false } := by
  rcases h with hstopping | hcovered | hcancels
  . exact .inl hstopping
  . refine .inr (.inl ?_)
    have hchange : ∀ f, _ := fun f => @total_change cfg C _ _ s
      { s with memory := (s.memory.setStateSleeper t false).setEpochSleeper t false } t (s.pc t) f false
      Memory.asleep_self rfl (fun v hv => Memory.asleep_of_ne hv) (fun _ _ => rfl)
    have hsleeping := hchange Pc.sleeps
    have hwoken := hchange Pc.wakes
    have hnotices := hchange Pc.notices
    have hwakes : Pc.wakes (s.memory.stateSleeper t) (s.pc t) ≤ Pc.wakes false (s.pc t) := by
      cases s.memory.stateSleeper t
      . exact Nat.le_refl _
      . exact Nat.zero_le _
    have hsleeps : Pc.sleeps false (s.pc t) = 0 := rfl
    have hgives : Pc.notices (s.memory.stateSleeper t) (s.pc t) = Pc.notices false (s.pc t) := rfl
    have hfree : State.freeSlots { s with memory := (s.memory.setStateSleeper t false).setEpochSleeper t false }
        = s.freeSlots := rfl
    unfold Covered sleeping woken notices at *
    omega
  . exact .inr (.inr hcancels)

end Served

theorem served (hs : (system cfg C).ReachableVia (fun s event => s.starves event = false) s) : s.Served := by
  apply System.ReachableVia.invariant _ _ hs
  . refine .inr (.inl (.inl ?_))
    rw [sleeping_eq_zero_of_awake]
    . exact Nat.zero_le _
    . exact fun _ => rfl
  . intro s event s' hs h hok hstep
    cases step_cases hstep with
    | thread t choice hedge heffect => exact h.thread hs.reachable hok hedge heffect
    | spurious t => exact h.spurious t

theorem slept_of_asleep (hs : (system cfg C).Reachable s)
    : ∀ t, s.memory.stateSleeper t = true → ∀ c j, (s.pc t).submission = some (c, j) → j.slept = true := by
  apply reachable_induction _ _ _ hs
  . nofun
  . intro s t choice op pc' m' hs h hedge heffect
    apply forall_update (fun u pc => m'.stateSleeper u = true → ∀ c j, pc.submission = some (c, j) →
      j.slept = true)
    . intro hasleep c j hj
      cases heffect.asleep hasleep with
      | inl hbefore =>
        rw [awake_of_edge hs hedge heffect] at hbefore
        cases hbefore
      | inr hself =>
        rw [hself.2] at hedge
        generalize s.pc t = pc at hedge
        cases hedge
        all_goals cases hj
        rfl
    . intro u hu hasleep
      cases heffect.asleep hasleep with
      | inl hbefore => exact h u hbefore
      | inr hself => exact absurd hself.1 hu
  . intro s t _ h u hasleep
    apply h u
    by_cases hut : u = t
    . simp [Memory.setEpochSleeper, Memory.setStateSleeper, hut] at hasleep
    . simpa [Memory.setEpochSleeper, Memory.setStateSleeper, hut] using hasleep

/--
No notification is left to issue and no woken producer is on its way into the queue.
-/
structure Quiet (s : State cfg C) : Prop where
  running : s.memory.isStopping = false
  silent : ∀ t, (s.pc t).notifies s.memory = false
  settled : ∀ t, (s.pc t).slept = true → s.memory.stateSleeper t = true

end State

theorem producers_sleep_when_full {s : State cfg C}
    (hs : (system cfg C).ReachableVia (fun s event => s.starves event = false) s) (hquiet : s.Quiet)
    {t : Thread cfg C} {c : Context} {j : Submission} {observed : Word cfg}
    (hpc : s.pc t = .spaceWait c j observed) (hasleep : s.memory.stateSleeper t = true)
    : s.memory.pendingTasks = cfg.queueCapacity := by
  have hreachable := hs.reachable
  have hwaiting : s.memory.waiting .producers ≠ 0 := by
    apply State.waiting_pos hreachable (t := t)
    rw [hpc]
    rfl
  have hslept : (s.pc t).slept = true := by
    rw [hpc]
    apply State.slept_of_asleep hreachable t hasleep c j
    rw [hpc]
    rfl
  have hsleeping : 0 < s.sleeping := by
    have hle := Count.le_sum (fun u => Pc.sleeps (s.memory.stateSleeper u) (s.pc u)) t
    have hone : Pc.sleeps (s.memory.stateSleeper t) (s.pc t) = 1 := by simp [Pc.sleeps, hasleep, hslept]
    simp only [hone] at hle
    exact hle
  have hnotices : s.notices = 0 := by
    apply Count.sum_eq_zero_iff.mpr
    intro u
    have hsilent := hquiet.silent u
    generalize s.pc u = pc at hsilent
    cases pc
    case consumerUnlock | producersWaiting => simp [Pc.notifies, hwaiting] at hsilent
    all_goals first | rfl | cases hsilent
  have hwoken : s.woken = 0 := by
    apply Count.sum_eq_zero_iff.mpr
    intro u
    cases hu : (s.pc u).slept with
    | false => simp [Pc.wakes, hu]
    | true => simp [Pc.wakes, hu, hquiet.settled u hu]
  rcases State.served hs with hstopping | hcovered | ⟨u, hu⟩
  . rw [hquiet.running] at hstopping
    cases hstopping
  . have hle := (State.counted hreachable).pending_le
    unfold State.Covered State.freeSlots at hcovered
    omega
  . have hsilent := hquiet.silent u
    rw [Pc.notifies_of_cancelNotifies hu] at hsilent
    cases hsilent

-- The worker claims the task that fills the queue and wakes the producer that waits for its slot. That one
-- fills the queue again, so the next producer falls asleep.
def servedRun : List (Event tinyConfig (Fin 2)) :=
  let worker := .worker (⟨0, Nat.one_pos⟩ : Fin 1)
  let first := .client ⟨0, by decide⟩
  let second := .client ⟨1, by decide⟩
  .step first (.call .dispatch) :: Event.goes first 8 ++
    .step second (.call .dispatch) :: Event.goes second 4 ++
    Event.goes worker 8 ++ .step worker (.unblock second) :: Event.goes second 10 ++
    .step first (.call .dispatch) :: Event.goes first 4

theorem producers_sleep_when_full_tiny
    : ∃ s : State tinyConfig (Fin 2), s.memory.stateSleeper (.client 0) = true ∧
        s.memory.history.accepted.length = 2 ∧ s.memory.pendingTasks = tinyConfig.queueCapacity := by
  have hrun : (((system tinyConfig (Fin 2)).restrict (fun s event => !s.starves event)).run State.init servedRun).map
      (fun s => s.memory.stateSleeper (.client 0) && decide (s.memory.history.accepted.length = 2) &&
        (s.pc (.client 0)).awaitsSpace &&
        !s.memory.isStopping && decide (∀ t, (s.pc t).notifies s.memory = false) &&
        decide (∀ t, (s.pc t).slept = true → s.memory.stateSleeper t = true)) = some true := by
    decide +kernel
  obtain ⟨s, hs, hp⟩ := System.exists_via_of_run _ hrun
  have hs : (system tinyConfig (Fin 2)).ReachableVia (fun s event => s.starves event = false) s :=
    hs.mono (by simp)
  simp only [Bool.and_eq_true, Bool.not_eq_true', decide_eq_true_eq] at hp
  obtain ⟨⟨⟨⟨⟨hasleep, haccepted⟩, hspace⟩, hrunning⟩, hsilent⟩, hsettled⟩ := hp
  obtain ⟨c, j, observed, hpc⟩ := Pc.eq_spaceWait hspace
  exact ⟨s, hasleep, haccepted, producers_sleep_when_full hs ⟨hrunning, hsilent, hsettled⟩ hpc hasleep⟩

-- Two producers sleep on a full queue when the worker claims both tasks at once and wakes the first of
-- them. It submits its task and returns, and nothing wakes the second one.
def starvedRun : List (Event narrowConfig (Fin 3)) :=
  let worker := .worker (⟨0, Nat.one_pos⟩ : Fin 1)
  let filler := .client ⟨0, by decide⟩
  let first := .client ⟨1, by decide⟩
  let second := .client ⟨2, by decide⟩
  .step filler (.call (.dispatchBulk 2)) :: Event.goes filler 9 ++
    .step first (.call .dispatch) :: Event.goes first 4 ++
    .step second (.call .dispatch) :: Event.goes second 4 ++
    Event.goes worker 14 ++ .step worker (.unblock first) :: Event.goes first 9

theorem producer_starves
    : ∃ s : State narrowConfig (Fin 3), (system narrowConfig (Fin 3)).Reachable s ∧ s.Quiet ∧
        ∃ c j observed, s.pc (.client 2) = .spaceWait c j observed ∧
          s.memory.stateSleeper (.client 2) = true ∧
          s.memory.pendingTasks < narrowConfig.queueCapacity := by
  have hrun : ((system narrowConfig (Fin 3)).run State.init starvedRun).map
      (fun s => s.memory.stateSleeper (.client 2) && (s.pc (.client 2)).awaitsSpace &&
        decide (s.memory.pendingTasks < narrowConfig.queueCapacity) &&
        !s.memory.isStopping && decide (∀ t, (s.pc t).notifies s.memory = false) &&
        decide (∀ t, (s.pc t).slept = true → s.memory.stateSleeper t = true)) = some true := by
    decide +kernel
  obtain ⟨s, hs, hp⟩ := System.exists_of_run _ hrun
  simp only [Bool.and_eq_true, Bool.not_eq_true', decide_eq_true_eq] at hp
  obtain ⟨⟨⟨⟨⟨hasleep, hspace⟩, hfree⟩, hrunning⟩, hsilent⟩, hsettled⟩ := hp
  obtain ⟨c, j, observed, hpc⟩ := Pc.eq_spaceWait hspace
  exact ⟨s, hs, ⟨hrunning, hsilent, hsettled⟩, c, j, observed, hpc, hasleep, hfree⟩

end Vosp.Pool
