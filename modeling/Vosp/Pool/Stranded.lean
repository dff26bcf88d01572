import Vosp.Pool.Sleep

/-!
This module contains the condition under which queued tasks never wait for workers that all sleep.
Idle workers and blocked producers sleep on the same word, so the one notification of a submission
can go to a producer, and a task that submits can put the last worker to sleep.
-/

namespace Vosp.Pool

variable {cfg : Config} {C : Type}

namespace Pc

def rests (pc : Pc cfg) : Bool :=
  match pc with
  | .resting none _ => true
  | _ => false

def notifiesWorkers (pc : Pc cfg) : Bool :=
  match pc with
  | .workersNotify .. => true
  | _ => false

def cancelNotifies (pc : Pc cfg) : Bool :=
  match pc with
  | .cancelActive .. | .cancelIdle .. | .cancelEpoch .. | .cancelEpochNotify .. | .cancelNotify .. => true
  | _ => false

theorem holds_of_cancelNotifies {pc : Pc cfg} (h : pc.cancelNotifies = true)
    : pc.holds .producer = true ∧ pc.holds .consumer = true := by
  cases pc
  all_goals first | exact ⟨rfl, rfl⟩ | cases h

theorem notifies_of_cancelNotifies {pc : Pc cfg} {m : Memory cfg C} (h : pc.cancelNotifies = true)
    : pc.notifies m = true := by
  cases pc
  all_goals first | rfl | cases h

theorem notifies_eq {pc : Pc cfg} {m m' : Memory cfg C} (hwaiting : m'.waiting .workers = m.waiting .workers)
    (hpc : pc.onWorker = false ∨ ∃ observed, pc.observes = some observed)
    : pc.notifies m' = pc.notifies m := by
  cases pc
  case producerUnlock | workersWaiting => simp only [notifies, hwaiting]
  case consumerUnlock | producersWaiting =>
    cases hpc with
    | inl hclient => cases hclient
    | inr hobserves =>
      obtain ⟨_, hobserves⟩ := hobserves
      cases hobserves
  all_goals rfl

theorem onWorker_of_group {pc : Pc cfg} (h : pc.group = some .workers) : pc.onWorker = true := by
  cases pc
  all_goals first | rfl | cases h

end Pc

namespace Edge

variable {t : Thread cfg C} {m : Memory cfg C} {pc pc' : Pc cfg} {op : Op cfg}

theorem cancelNotifies (h : Edge t m pc op pc') (hpc : pc.cancelNotifies = true)
    : pc'.cancelNotifies = true ∨ op = .notifyAll := by
  cases h
  all_goals first | exact .inl rfl | exact .inr rfl | cases hpc

theorem onWorker_of_claimed (h : Edge t m pc op pc') (hop : 0 < op.claimed) : pc.onWorker = true := by
  cases h
  all_goals first | rfl | cases hop

theorem cancelNotifies_of_dropped (h : Edge t m pc op pc') (hop : 0 < op.dropped)
    : pc'.cancelNotifies = true := by
  cases h
  all_goals first | rfl | cases hop

theorem holds_of_published (h : Edge t m pc op pc') (hop : 0 < op.published)
    : pc.holds .producer = true ∧ pc.cancelNotifies = false := by
  cases h
  all_goals first | exact ⟨rfl, rfl⟩ | cases hop

theorem notifies_of_published {m' : Memory cfg C} (h : Edge t m pc op pc') (hop : 0 < op.published)
    : pc'.notifies m' = decide (m'.waiting .workers ≠ 0) := by
  cases h
  all_goals first | rfl | cases hop

theorem notifies (h : Edge t m pc op pc') (hpc : pc.notifies m = true) (hclient : pc.onWorker = false)
    : pc'.notifies m = true ∨ op = .notifyAll ∨ op = .notifyOne ∧ pc.notifiesWorkers = true := by
  cases h
  case workersWaitingNone hnone => simp [Pc.notifies, hnone] at hpc
  all_goals
    first
    | exact .inl rfl
    | exact .inl hpc
    | exact .inr (.inl rfl)
    | exact .inr (.inr ⟨rfl, rfl⟩)
    | cases hclient
    | cases hpc

end Edge

variable [Fintype C] [DecidableEq C]

namespace State

variable {s s' : State cfg C} {event : Event cfg C} {t : Thread cfg C} {choice : Choice cfg C}
  {op : Op cfg} {m' : Memory cfg C} {pc' : Pc cfg}

def AllAsleep (s : State cfg C) : Prop := ∀ i, s.memory.stateSleeper (.worker i) = true

/--
Tasks are queued, every worker sleeps and nobody is going to wake one.
-/
structure Stranded (s : State cfg C) : Prop where
  running : s.memory.isStopping = false
  queued : 0 < s.memory.pendingTasks
  asleep : s.AllAsleep
  silent : ∀ t, (s.pc t).notifies s.memory = false

-- The only notification that is left to issue is that of a submission, while every worker sleeps and
-- tasks are queued, and it unblocks a producer.
def wakesProducerOnly (s : State cfg C) (event : Event cfg C) : Bool :=
  match event with
  | .step t (.unblock u) =>
    (s.pc t).notifiesWorkers && !u.isWorker && !s.memory.isStopping && decide (0 < s.memory.pendingTasks) &&
      decide (∀ i, s.memory.stateSleeper (.worker i) = true) &&
      decide (∀ v, v ≠ t → (s.pc v).notifies s.memory = false)
  | _ => false

-- A task falls asleep in `wait_for_space` while all other workers sleep and no notification is left
-- to issue.
def sleepsAsLastWorker (s : State cfg C) (event : Event cfg C) : Bool :=
  match event with
  | .step t .go =>
    match s.pc t with
    | .spaceWait _ _ observed =>
      t.isWorker && !s.memory.stateSleeper t && decide (s.memory.queueState = observed) &&
        decide (∀ i, .worker i ≠ t → s.memory.stateSleeper (.worker i) = true) &&
        decide (∀ v, (s.pc v).notifies s.memory = false)
    | _ => false
  | _ => false

def strands (s : State cfg C) (event : Event cfg C) : Bool :=
  s.wakesProducerOnly event || s.sleepsAsLastWorker event

omit [Fintype C] in
theorem not_asleep_of_notifyAll (hasleep : ∀ i, m'.stateSleeper (.worker i) = true)
    (heffect : Effect t choice .notifyAll s.memory m')
    : False := by
  cases heffect
  cases hasleep ⟨0, cfg.workerCount_pos⟩

theorem isWorker_eq_false (hs : (system cfg C).Reachable s) (hasleep : s.AllAsleep)
    (hedge : Edge t s.memory (s.pc t) op pc') (heffect : Effect t choice op s.memory m')
    : t.isWorker = false := by
  have hawake := awake_of_edge hs hedge heffect
  cases t with
  | client => rfl
  | worker i =>
    rw [hasleep i] at hawake
    cases hawake

omit [Fintype C] in
theorem allAsleep_before (heffect : Effect t choice op s.memory m')
    (hasleep : ∀ i, m'.stateSleeper (.worker i) = true) (hop : ∀ observed, op ≠ .sleep observed)
    : s.AllAsleep := by
  intro i
  cases heffect.asleep (hasleep i) with
  | inl hbefore => exact hbefore
  | inr hself => exact absurd hself.2 (hop _)

theorem waiting_workers_eq (hs : (system cfg C).Reachable s) (hclient : t.isWorker = false)
    (hedge : Edge t s.memory (s.pc t) op pc') (heffect : Effect t choice op s.memory m')
    : m'.waiting .workers = s.memory.waiting .workers := by
  have hzero : ∀ pc : Pc cfg, pc.onWorker = false → pc.enlisted .workers = 0 := by
    intro pc hpc
    apply if_neg
    intro hgroup
    rw [Pc.onWorker_of_group hgroup] at hpc
    cases hpc
  have hpc : (s.pc t).onWorker = false := by rw [(counted hs).kind, hclient]
  have hpc' : pc'.onWorker = false := by rw [hedge.onWorker_eq, hpc]
  have hadd := @Edge.enlisted_add _ _ _ _ _ _ _ _ _ _ .workers hedge heffect (by simp [hzero _ hpc])
  rw [hzero _ hpc, hzero _ hpc'] at hadd
  exact hadd

-- When all workers sleep, one of them is idle, or the queue was full when the last one fell asleep.
def Excused (s : State cfg C) : Prop :=
  s.memory.waiting .workers ≠ 0 ∨ s.memory.pendingTasks = cfg.queueCapacity ∨
    ∃ t, (s.pc t).cancelNotifies = true

theorem excused_of_sleep {observed : Word cfg} (hs : (system cfg C).Reachable s)
    (hedge : Edge t s.memory (s.pc t) (.sleep observed) pc')
    (heffect : Effect t choice (.sleep observed) s.memory m')
    : State.Excused { memory := m', pc := Function.update s.pc t pc' } := by
  have hobserving := observing hs t
  have hwaiting := @waiting_pos cfg C _ _ s hs t .workers
  cases heffect with
  | sleep _ heq =>
    generalize s.pc t = pc at hedge hobserving hwaiting
    cases hedge with
    | workerSleep => exact .inl (hwaiting rfl)
    | spaceSleep =>
      right
      left
      have hfull : isFull s.memory.queueState = true := by rwa [heq]
      simp only [isFull, Bool.and_eq_true, beq_iff_eq] at hfull
      exact hfull.2

theorem Excused.thread (hs : (system cfg C).Reachable s) (h : s.Excused) (hasleep : s.AllAsleep)
    (hasleep' : ∀ i, m'.stateSleeper (.worker i) = true) (hedge : Edge t s.memory (s.pc t) op pc')
    (heffect : Effect t choice op s.memory m')
    : State.Excused { memory := m', pc := Function.update s.pc t pc' } := by
  have hcounted := counted hs
  have hclient := isWorker_eq_false hs hasleep hedge heffect
  rcases h with hwaiting | hfull | ⟨u, hu⟩
  . left
    show m'.waiting .workers ≠ 0
    rwa [waiting_workers_eq hs hclient hedge heffect]
  . by_cases hdropped : 0 < op.dropped
    . refine .inr (.inr ⟨t, ?_⟩)
      rw [pc_self]
      exact hedge.cancelNotifies_of_dropped hdropped
    . have hclaimed : ¬ 0 < op.claimed := by
        intro hclaimed
        have honWorker := hedge.onWorker_of_claimed hclaimed
        rw [hcounted.kind, hclient] at honWorker
        cases honWorker
      have hpending := pending_add hs hedge heffect
      have hpublished := hedge.published_le hcounted.pending_le (hcounted.producing t)
      refine .inr (.inl ?_)
      show m'.pendingTasks = cfg.queueCapacity
      omega
  . by_cases hut : u = t
    . subst hut
      cases hedge.cancelNotifies hu with
      | inl hnext =>
        refine .inr (.inr ⟨u, ?_⟩)
        rwa [pc_self]
      | inr hop =>
        subst hop
        exact (not_asleep_of_notifyAll hasleep' heffect).elim
    . refine .inr (.inr ⟨u, ?_⟩)
      rwa [pc_of_ne hut]

theorem excused (hs : (system cfg C).Reachable s) : s.AllAsleep → s.Excused := by
  apply reachable_induction _ _ _ hs
  . intro hasleep
    cases hasleep ⟨0, cfg.workerCount_pos⟩
  . intro s t choice op pc' m' hs h hedge heffect hasleep
    by_cases hsleep : ∃ observed, op = .sleep observed
    . obtain ⟨observed, rfl⟩ := hsleep
      exact excused_of_sleep hs hedge heffect
    . simp only [not_exists] at hsleep
      have hbefore := allAsleep_before heffect hasleep hsleep
      exact (h hbefore).thread hs hbefore hasleep hedge heffect
  . intro s t _ h hasleep
    apply h
    intro i
    have hi := hasleep i
    by_cases hit : .worker i = t
    . simp [Memory.setEpochSleeper, Memory.setStateSleeper, hit] at hi
    . simpa [Memory.setEpochSleeper, Memory.setStateSleeper, hit] using hi

theorem notifies_eq (hs : (system cfg C).Reachable s) (hasleep : s.AllAsleep)
    (hwaiting : m'.waiting .workers = s.memory.waiting .workers) (v : Thread cfg C)
    : (s.pc v).notifies m' = (s.pc v).notifies s.memory := by
  apply Pc.notifies_eq hwaiting
  cases v with
  | client name => exact .inl ((counted hs).kind (.client name))
  | worker i => exact .inr (observes_of_asleep hs _ (hasleep i))

theorem sleepsAsLastWorker_of_stranded {observed : Word cfg} (hs : (system cfg C).Reachable s)
    (h : ¬ s.Stranded) (hedge : Edge t s.memory (s.pc t) (.sleep observed) pc')
    (heffect : Effect t choice (.sleep observed) s.memory m')
    (h' : State.Stranded { memory := m', pc := Function.update s.pc t pc' })
    : s.sleepsAsLastWorker (.step t choice) = true := by
  cases heffect with
  | sleep hawake heq =>
    have hobserving := observing hs t
    have hasleep : ∀ i, .worker i ≠ t → s.memory.stateSleeper (.worker i) = true := by
      intro i hi
      have hafter := h'.asleep i
      rwa [Memory.asleep_of_ne hi] at hafter
    generalize hpc : s.pc t = pc at hedge hobserving
    cases hedge with
    | workerSleep =>
      have hempty : isEmpty s.memory.queueState = true := by rwa [heq]
      simp only [isEmpty, Bool.and_eq_true, beq_iff_eq] at hempty
      exact absurd h'.queued (by rw [Nat.not_lt]; exact Nat.le_of_eq hempty.1)
    | spaceSleep =>
      have hsilent : ∀ v, (s.pc v).notifies s.memory = false := by
        intro v
        by_cases hv : v = t
        . rw [hv, hpc]
          rfl
        . have hafter := h'.silent v
          rwa [pc_of_ne hv] at hafter
      by_cases hworker : t.isWorker = true
      . simp only [sleepsAsLastWorker, hpc, hworker, hawake, heq, Bool.not_false, Bool.true_and,
          decide_true, Bool.and_eq_true, decide_eq_true_eq]
        exact ⟨hasleep, hsilent⟩
      . apply absurd _ h
        refine ⟨h'.running, h'.queued, ?_, hsilent⟩
        intro i
        apply hasleep
        rintro rfl
        exact hworker rfl

omit [Fintype C] [DecidableEq C] in
theorem isWorker_of_unblocked {u : Thread cfg C} (hasleep : ∀ i, m'.stateSleeper (.worker i) = true)
    (hu : m'.stateSleeper u = false)
    : u.isWorker = false := by
  cases u with
  | client => rfl
  | worker i =>
    rw [hasleep i] at hu
    cases hu

theorem wakesProducerOnly_of_notify (hasleep : s.AllAsleep) (hrunning : s.memory.isStopping = false)
    (hqueued : 0 < s.memory.pendingTasks)
    (hsilent : ∀ v, v ≠ t → (s.pc v).notifies s.memory = false)
    (hworkers : (s.pc t).notifiesWorkers = true)
    (hasleep' : ∀ i, m'.stateSleeper (.worker i) = true) (heffect : Effect t choice .notifyOne s.memory m')
    : s.wakesProducerOnly (.step t choice) = true := by
  cases heffect with
  | notifyNone hnone =>
    have hworker := hasleep ⟨0, cfg.workerCount_pos⟩
    rw [hnone] at hworker
    cases hworker
  | unblock u =>
    have hclient : u.isWorker = false := isWorker_of_unblocked hasleep' Memory.asleep_self
    simp only [wakesProducerOnly, hworkers, hclient, hrunning, hqueued, Bool.not_false, Bool.true_and,
      Bool.and_eq_true, decide_eq_true_eq]
    exact ⟨⟨trivial, hasleep⟩, hsilent⟩

theorem strands_of_stranded (hs : (system cfg C).Reachable s) (h : ¬ s.Stranded)
    (hedge : Edge t s.memory (s.pc t) op pc') (heffect : Effect t choice op s.memory m')
    (h' : State.Stranded { memory := m', pc := Function.update s.pc t pc' })
    : s.strands (.step t choice) = true := by
  by_cases hsleep : ∃ observed, op = .sleep observed
  . obtain ⟨observed, rfl⟩ := hsleep
    rw [strands, sleepsAsLastWorker_of_stranded hs h hedge heffect h', Bool.or_true]
  . simp only [not_exists] at hsleep
    have hasleep := allAsleep_before heffect h'.asleep hsleep
    have hclient := isWorker_eq_false hs hasleep hedge heffect
    have hwaiting := waiting_workers_eq hs hclient hedge heffect
    have hcounted := counted hs
    have hrunning : s.memory.isStopping = false := by
      have hrunning : m'.isStopping = false := h'.running
      rw [isStopping_eq hs hedge heffect, Bool.or_eq_false_iff] at hrunning
      exact hrunning.1
    have hqueued : 0 < m'.pendingTasks := h'.queued
    have hsilent : ∀ v, v ≠ t → (s.pc v).notifies s.memory = false := by
      intro v hv
      have hafter := h'.silent v
      rwa [pc_of_ne hv, notifies_eq hs hasleep hwaiting] at hafter
    have hsilent' : pc'.notifies m' = false := by
      have hafter := h'.silent t
      rwa [pc_self] at hafter
    have hpending := pending_add hs hedge heffect
    by_cases hnotifies : (s.pc t).notifies s.memory = true
    . have hpc : (s.pc t).onWorker = false := by rw [hcounted.kind, hclient]
      rcases hedge.notifies hnotifies hpc with hnext | rfl | ⟨rfl, hworkers⟩
      . rw [Pc.notifies_eq hwaiting (.inl (hedge.onWorker_eq.trans hpc)), hnext] at hsilent'
        cases hsilent'
      . exact (not_asleep_of_notifyAll h'.asleep heffect).elim
      . have hqueued : 0 < s.memory.pendingTasks := by
          simp only [Op.claimed, Op.dropped, Op.published] at hpending
          omega
        rw [strands, wakesProducerOnly_of_notify hasleep hrunning hqueued hsilent hworkers h'.asleep heffect,
          Bool.true_or]
    . have hpublished : 0 < op.published := by
        have hempty : ¬ 0 < s.memory.pendingTasks := by
          intro hqueued
          apply h ⟨hrunning, hqueued, hasleep, _⟩
          intro v
          by_cases hv : v = t
          . rwa [hv, ← Bool.not_eq_true]
          . exact hsilent v hv
        omega
      obtain ⟨hholds, hcancel⟩ := hedge.holds_of_published hpublished
      rcases excused hs hasleep with hidle | hfull | ⟨u, hu⟩
      . rw [hedge.notifies_of_published hpublished, hwaiting] at hsilent'
        exact absurd hidle (by simpa using hsilent')
      . have hle := hedge.published_le hcounted.pending_le (hcounted.producing t)
        omega
      . have heq := (locked hs).unique (Pc.holds_of_cancelNotifies hu).1 hholds
        rw [heq, hcancel] at hu
        cases hu

theorem stranded_of_wakesProducerOnly (h : s.wakesProducerOnly event = true)
    (hstep : (system cfg C).step s event = some s')
    : s'.Stranded := by
  cases event with
  | spurious => cases h
  | step t choice =>
    cases choice
    case unblock u =>
      simp only [wakesProducerOnly, Bool.and_eq_true, Bool.not_eq_true', decide_eq_true_eq] at h
      obtain ⟨⟨⟨⟨⟨hworkers, hclient⟩, hrunning⟩, hqueued⟩, hasleep⟩, hsilent⟩ := h
      obtain ⟨op, pc', m', hedge, heffect, rfl⟩ := step_of_pc hstep rfl
      cases heffect with
      | unblock _ hu =>
        refine ⟨hrunning, hqueued, ?_, ?_⟩
        . intro i
          have hi : .worker i ≠ u := by
            rintro rfl
            cases hclient
          rw [Memory.asleep_of_ne hi]
          exact hasleep i
        . intro v
          by_cases hv : v = t
          . rw [hv, pc_self]
            generalize s.pc t = pc at hworkers hedge
            cases hedge with
            | workersNotifyOne => rfl
            | producersNotify => cases hworkers
          . rw [pc_of_ne hv]
            exact hsilent v hv
      | read =>
        generalize s.pc t = pc at hworkers hedge
        cases hedge
        all_goals cases hworkers
    all_goals cases h

theorem stranded_of_sleepsAsLastWorker (hs : (system cfg C).Reachable s)
    (h : s.sleepsAsLastWorker event = true) (hstep : (system cfg C).step s event = some s')
    : s'.Stranded := by
  cases event with
  | spurious => cases h
  | step t choice =>
    cases choice
    case go =>
      rw [sleepsAsLastWorker] at h
      split at h
      . next c j observed hpc =>
        simp only [Bool.and_eq_true, Bool.not_eq_true', decide_eq_true_eq] at h
        obtain ⟨⟨⟨⟨-, hawake⟩, heq⟩, hasleep⟩, hsilent⟩ := h
        have hobserving := observing hs t
        rw [hpc] at hobserving
        have hfull : isFull s.memory.queueState = true := by rwa [heq]
        simp only [isFull, Bool.and_eq_true, Bool.not_eq_true', beq_iff_eq] at hfull
        obtain ⟨op, pc', m', hedge, heffect, rfl⟩ := step_of_pc hstep hpc
        cases hedge with
        | spaceWake hne => exact absurd heq hne
        | spaceSleep =>
          cases heffect with
          | sleep =>
            refine ⟨hfull.1, ?_, ?_, ?_⟩
            . have hqueued : 0 < s.memory.pendingTasks :=
                Nat.lt_of_lt_of_eq cfg.queueCapacity_pos hfull.2.symm
              exact hqueued
            . intro i
              by_cases hi : .worker i = t
              . rw [hi]
                exact Memory.asleep_self
              . rw [Memory.asleep_of_ne hi]
                exact hasleep i hi
            . intro v
              by_cases hv : v = t
              . rw [hv, pc_self]
                rfl
              . rw [pc_of_ne hv]
                exact hsilent v
      . cases h
    all_goals cases h

theorem stranded_iff (hs : (system cfg C).Reachable s) (h : ¬ s.Stranded)
    (hstep : (system cfg C).step s event = some s')
    : s'.Stranded ↔ s.strands event = true := by
  constructor
  . intro h'
    cases step_cases hstep with
    | thread t choice hedge heffect => exact strands_of_stranded hs h hedge heffect h'
    | spurious t =>
      apply absurd _ h
      refine ⟨h'.running, h'.queued, ?_, h'.silent⟩
      intro i
      have hi := h'.asleep i
      by_cases hit : .worker i = t
      . simp [Memory.setEpochSleeper, Memory.setStateSleeper, hit] at hi
      . simpa [Memory.setEpochSleeper, Memory.setStateSleeper, hit] using hi
  . intro hstrands
    rw [strands, Bool.or_eq_true] at hstrands
    cases hstrands with
    | inl hwakes => exact stranded_of_wakesProducerOnly hwakes hstep
    | inr hsleeps => exact stranded_of_sleepsAsLastWorker hs hsleeps hstep

end State

theorem queue_stranded_iff {s : State cfg C}
    (hs : (system cfg C).ReachableVia (fun s event => s.strands event = false) s)
    : ¬ s.Stranded ∧ ∀ event s', (system cfg C).step s event = some s' →
        (s'.Stranded ↔ s.strands event = true) := by
  have hnot : ¬ s.Stranded := by
    induction hs with
    | init =>
      intro h
      cases h.asleep ⟨0, cfg.workerCount_pos⟩
    | step hs hok hstep ih =>
      rw [State.stranded_iff hs.reachable ih hstep, hok]
      nofun
  exact ⟨hnot, fun _ _ hstep => State.stranded_iff hs.reachable hnot hstep⟩

theorem queue_stranded_iff_tiny
    : ∃ s : State tinyConfig Unit, s.memory.pendingTasks = 1 ∧
        (system tinyConfig Unit).ReachableVia (fun s event => s.strands event = false) s ∧
          ¬ s.Stranded := by
  have hrun : (((system tinyConfig Unit).restrict (fun s event => !s.strands event)).run State.init
      (Event.goes (.worker (0 : Fin 1)) 4 ++ .step (.client ()) (.call .dispatch) ::
        Event.goes (.client ()) 7 ++ [.step (.client ()) (.unblock (.worker (0 : Fin 1)))])).map
      (fun s => s.memory.pendingTasks == 1) = some true := by
    decide +kernel
  obtain ⟨s, hs, hp⟩ := System.exists_via_of_run _ hrun
  have hs : (system tinyConfig Unit).ReachableVia (fun s event => s.strands event = false) s :=
    hs.mono (by simp)
  exact ⟨s, by simpa using hp, hs, (queue_stranded_iff hs).1⟩

-- Two producers sleep on a full queue when the worker takes the task and wakes the first of them.
-- The worker finishes and falls asleep, the first producer submits its task, and its notification
-- goes to the second producer, which sees the word that it has observed before.
def strandedRun : List (Event tinyConfig (Fin 3)) :=
  let worker := .worker (⟨0, Nat.one_pos⟩ : Fin 1)
  .step (.client 0) (.call .dispatch) :: Event.goes (.client 0) 8 ++
    .step (.client 1) (.call .dispatch) :: Event.goes (.client 1) 4 ++
    .step (.client 2) (.call .dispatch) :: Event.goes (.client 2) 4 ++
    Event.goes worker 8 ++ .step worker (.unblock (.client 1)) :: Event.goes worker 1 ++
    .step worker (.ret (.result (.ok ()))) :: Event.goes worker 8 ++
    Event.goes (.client 1) 9 ++ .step (.client 1) (.unblock (.client 2)) :: Event.goes (.client 1) 1 ++
    Event.goes (.client 2) 1

theorem queue_stranded
    : ∃ s : State tinyConfig (Fin 3), (system tinyConfig (Fin 3)).Reachable s ∧ s.Stranded ∧
        ∀ name, s.memory.stateSleeper (.client name) = true ∨ (s.pc (.client name)).rests = true := by
  have hrun : ((system tinyConfig (Fin 3)).run State.init strandedRun).map
      (fun s => !s.memory.isStopping && decide (0 < s.memory.pendingTasks) &&
        decide (∀ i, s.memory.stateSleeper (.worker i) = true) &&
        decide (∀ t, (s.pc t).notifies s.memory = false) &&
        decide (∀ name, s.memory.stateSleeper (.client name) = true ∨ (s.pc (.client name)).rests = true))
      = some true := by
    decide +kernel
  obtain ⟨s, hs, hp⟩ := System.exists_of_run _ hrun
  simp only [Bool.and_eq_true, Bool.not_eq_true', decide_eq_true_eq] at hp
  obtain ⟨⟨⟨⟨hrunning, hqueued⟩, hasleep⟩, hsilent⟩, hrest⟩ := hp
  exact ⟨s, hs, ⟨hrunning, hqueued, hasleep, hsilent⟩, hrest⟩

end Vosp.Pool
