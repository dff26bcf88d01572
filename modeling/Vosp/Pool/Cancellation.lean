import Vosp.Pool.Shutdown

/-!
This module contains what a `shutdown` that cancels tells the tasks that are still running. The call
asks the workers in the list `workers_` to stop, but another caller may have moved the list out to
join them. That is harmless for a client, who waits for the joins to end, but not for a task.
-/

namespace Vosp.Pool

variable {cfg : Config} {C : Type}

namespace Pc

def emptied (pc : Pc cfg) : Bool :=
  match pc with
  | .cancelActive _ caller _ | .cancelIdle _ caller _ | .cancelEpoch _ caller _
  | .cancelEpochNotify _ caller _ | .cancelNotify _ caller _ | .cancelUnlockProducer _ caller _
  | .cancelUnlockConsumer _ caller _ =>
    match caller with
    | .clearQueue => false
    | .signalShutdown => true
  | .workersLock _ | .workersRead _ | .workersStop .. => true
  | .signalNotify _ mode | .signalReturn _ mode => mode = .cancelPending
  | _ => false

def unasked (pc : Pc cfg) : Option (List (Fin cfg.workerCount)) :=
  match pc with
  | .workersStop _ rest => some rest
  | .signalNotify _ mode | .signalReturn _ mode => if mode = .cancelPending then some [] else none
  | _ => none

def asksFromTask (pc : Pc cfg) : Bool :=
  match pc with
  | .workersRead (some _) => true
  | _ => false

theorem hands_ne_nil {pc : Pc cfg} (h : pc.frame.isSome = true) : pc.hands ≠ [] := by
  cases pc
  all_goals
    first
    | exact List.cons_ne_nil _ _
    | cases ‹Context› <;> first | exact List.cons_ne_nil _ _ | cases h
    | cases h

end Pc

namespace Edge

variable {t : Thread cfg C} {m : Memory cfg C} {pc pc' : Pc cfg} {op : Op cfg}
  {rest : List (Fin cfg.workerCount)}

theorem emptied (h : Edge t m pc op pc') (hconsuming : pc.Consuming m.history)
    (hpc : pc'.emptied = true)
    : pc.emptied = true ∨ pc.stopped = true ∧ op.published = 0 ∧
        m.history.leaving.length + m.history.queue.length = op.claimed + op.dropped := by
  cases h
  case cancelPublish caller n =>
    cases caller with
    | clearQueue => cases hpc
    | signalShutdown =>
      refine .inr ⟨rfl, rfl, ?_⟩
      have hleaving := hconsuming.1
      have hqueue := hconsuming.2
      simp only [Op.claimed, Op.dropped]
      omega
  case cancelResetNone caller =>
    cases caller with
    | clearQueue => cases hpc
    | signalShutdown =>
      refine .inr ⟨rfl, rfl, ?_⟩
      have hleaving := hconsuming.1
      have hqueue := hconsuming.2
      simp only [Op.claimed, Op.dropped]
      omega
  all_goals first | exact .inl hpc | cases hpc

theorem unasked (h : Edge t m pc op pc') (hpc : pc'.unasked = some rest)
    : pc.unasked = some rest ∨ (∃ i, op = .requestStop i ∧ pc.unasked = some (i :: rest)) ∨
        (∃ c, pc = .workersRead c) ∧ op = .read ∧ rest = m.workers := by
  cases h
  case workersStop =>
    cases hpc
    exact .inr (.inl ⟨_, rfl, rfl⟩)
  case workersRead =>
    cases hpc
    exact .inr (.inr ⟨⟨_, rfl⟩, rfl, rfl⟩)
  all_goals first | exact .inl hpc | cases hpc

theorem unasked_of_signalled (h : Edge t m pc (.signalled .cancelPending) pc')
    : pc.unasked = some [] := by
  cases h
  all_goals rfl

theorem hands_ne_nil (h : Edge t m pc op pc') (hclaiming : pc.Claiming)
    (hconsuming : pc.Consuming m.history) (hqueue : m.history.queue = []) (hhands : pc'.hands ≠ [])
    : pc.hands ≠ [] := by
  by_cases hop : op.handles = true
  . cases op
    case vacate =>
      cases h
      case scalarTake =>
        have hpos := hconsuming.2
        simp [hqueue] at hpos
      case bulkTake =>
        have hlimit := hconsuming.2
        have hlt := hclaiming.1
        rw [hqueue, List.length_nil] at hlimit
        omega
    case complete =>
      rw [h.hands_complete]
      exact List.cons_ne_nil _ _
    all_goals cases hop
  . rw [Bool.not_eq_true] at hop
    rwa [← h.hands_eq hop]

end Edge

namespace Effect

variable [DecidableEq C] {t : Thread cfg C} {choice : Choice cfg C} {op : Op cfg}
  {m m' : Memory cfg C} {i : Fin cfg.workerCount}

theorem stopRequested_mono (h : Effect t choice op m m') (hi : m.stopRequested i = true)
    : m'.stopRequested i = true := by
  by_cases hop : ∃ j, op = .requestStop j
  . obtain ⟨j, rfl⟩ := hop
    cases h
    by_cases hij : i = j
    . simp [hij]
    . simpa [hij] using hi
  . cases h
    case requestStop => exact absurd ⟨_, rfl⟩ hop
    case cancel hcancel =>
      obtain ⟨_, _, rfl⟩ := Memory.cancel_eq hcancel
      exact hi
    case complete hcomplete =>
      obtain ⟨_, _, rfl⟩ := Memory.complete_eq hcomplete
      exact hi
    all_goals exact hi

theorem stopRequested_self (h : Effect t choice (.requestStop i) m m') : m'.stopRequested i = true := by
  cases h
  exact Function.update_self _ _ _

end Effect

variable [Fintype C] [DecidableEq C]

namespace State

variable {s s' : State cfg C} {event : Event cfg C} {rest : List (Fin cfg.workerCount)}

-- The event is not a task that finds the list moved out while a worker that has still tasks to run
-- was never asked to stop.
def asksEveryWorker (s : State cfg C) (event : Event cfg C) : Bool :=
  match event with
  | .step t _ =>
    !((s.pc t).asksFromTask && s.memory.workers.isEmpty &&
      (List.finRange cfg.workerCount).any fun i =>
        !(s.pc (.worker i)).hands.isEmpty && !s.memory.stopRequested i)
  | .spurious _ => true

structure Asked (s : State cfg C) (rest : List (Fin cfg.workerCount)) : Prop where
  drained : s.memory.pendingTasks = 0 ∧ s.memory.isStopping = true
  asked : ∀ i, (s.pc (.worker i)).hands ≠ [] → i ∈ rest ∨ s.memory.stopRequested i = true

theorem workers_all_or_none (hs : (system cfg C).Reachable s)
    : s.memory.workers = [] ∨ ∀ i, i ∈ s.memory.workers := by
  apply reachable_induction _ _ _ hs
  . exact .inr List.mem_finRange
  . intro s t choice op pc' m' _ h _ heffect
    cases heffect.workers_eq with
    | inl heq => rwa [heq]
    | inr hswap => exact .inl hswap.2
  . intro s t _ h
    exact h

theorem drained_of_emptied (hs : (system cfg C).Reachable s)
    : ∀ t, (s.pc t).emptied = true → s.memory.pendingTasks = 0 ∧ s.memory.isStopping = true := by
  apply reachable_induction _ _ _ hs
  . rintro (_ | _) h
    all_goals cases h
  . intro s t choice op pc' m' hs h hedge heffect
    have hcounted := counted hs
    apply forall_update (fun _ pc => pc.emptied = true → m'.pendingTasks = 0 ∧ m'.isStopping = true)
    . intro hemptied
      cases hedge.emptied (hcounted.consuming t) hemptied with
      | inl hbefore => exact drained_step hs hedge heffect (h t hbefore)
      | inr hempty =>
        obtain ⟨hstopped, hpublished, hlength⟩ := hempty
        have hpending := pending_add hs hedge heffect
        rw [hcounted.pending_eq] at hpending
        refine ⟨by omega, ?_⟩
        rw [isStopping_eq hs hedge heffect, stopping_of_stopped hs t hstopped, Bool.true_or]
    . exact fun u _ hemptied => drained_step hs hedge heffect (h u hemptied)
  . intro s t _ h
    exact h

namespace Asked

variable {t : Thread cfg C} {choice : Choice cfg C} {op : Op cfg} {m' : Memory cfg C} {pc' : Pc cfg}

theorem hands_ne_nil (hs : (system cfg C).Reachable s) (h : s.Asked rest)
    (hedge : Edge t s.memory (s.pc t) op pc')
    : ∀ u, (Function.update s.pc t pc' u).hands ≠ [] → (s.pc u).hands ≠ [] := by
  have hcounted := counted hs
  have hpending := hcounted.pending_eq.symm.trans h.drained.1
  have hqueue : s.memory.history.queue = [] := by
    apply List.eq_nil_of_length_eq_zero
    omega
  apply forall_update (fun u pc => pc.hands ≠ [] → (s.pc u).hands ≠ [])
  . exact hedge.hands_ne_nil (hcounted.claiming t) (hcounted.consuming t) hqueue
  . exact fun u _ hhands => hhands

theorem thread (hs : (system cfg C).Reachable s) (h : s.Asked rest)
    (hedge : Edge t s.memory (s.pc t) op pc') (heffect : Effect t choice op s.memory m')
    : State.Asked { memory := m', pc := Function.update s.pc t pc' } rest where
  drained := drained_step hs hedge heffect h.drained
  asked i hhands := by
    cases h.asked i (h.hands_ne_nil hs hedge _ hhands) with
    | inl hmem => exact .inl hmem
    | inr hstop => exact .inr (heffect.stopRequested_mono hstop)

theorem requestStop {i : Fin cfg.workerCount} (hs : (system cfg C).Reachable s) (h : s.Asked (i :: rest))
    (hedge : Edge t s.memory (s.pc t) (.requestStop i) pc')
    (heffect : Effect t choice (.requestStop i) s.memory m')
    : State.Asked { memory := m', pc := Function.update s.pc t pc' } rest where
  drained := drained_step hs hedge heffect h.drained
  asked j hhands := by
    cases h.asked j (h.hands_ne_nil hs hedge _ hhands) with
    | inl hmem =>
      cases hmem with
      | head => exact .inr heffect.stopRequested_self
      | tail _ hrest => exact .inl hrest
    | inr hstop => exact .inr (heffect.stopRequested_mono hstop)

end Asked

theorem asked_of_read {t : Thread cfg C} {choice : Choice cfg C} {c : Context}
    (hs : (system cfg C).Reachable s) (hpc : s.pc t = .workersRead c)
    (hall : s.asksEveryWorker (.step t choice) = true)
    : s.Asked s.memory.workers where
  drained := drained_of_emptied hs t (by rw [hpc]; rfl)
  asked i hhands := by
    cases c with
    | some f =>
      cases workers_all_or_none hs with
      | inr hlisted => exact .inl (hlisted i)
      | inl hempty =>
        right
        simp only [asksEveryWorker, hpc, Pc.asksFromTask, hempty] at hall
        simp at hall
        exact hall i hhands
    | none =>
      rcases joined_or_listed hs i with hexited | hlisted | ⟨u, hu⟩
      . rw [pc_of_exited hs _ hexited] at hhands
        exact absurd rfl hhands
      . exact .inl hlisted
      . have hholds : (s.pc t).holds .shutdown = true := by
          rw [hpc]
          rfl
        have hholds' := Pc.holds_of_joins (Pc.joins_of_mem hu)
        rw [(locked hs).unique hholds' hholds, hpc] at hu
        cases hu

structure Reaches (s : State cfg C) : Prop where
  unasked : ∀ t rest, (s.pc t).unasked = some rest → s.Asked rest
  signalled : .cancelPending ∈ s.memory.history.signalled → s.Asked []

theorem Reaches.thread {t : Thread cfg C} {choice : Choice cfg C} {op : Op cfg} {m' : Memory cfg C}
    {pc' : Pc cfg} (hs : (system cfg C).Reachable s) (h : s.Reaches)
    (hall : s.asksEveryWorker (.step t choice) = true) (hedge : Edge t s.memory (s.pc t) op pc')
    (heffect : Effect t choice op s.memory m')
    : State.Reaches { memory := m', pc := Function.update s.pc t pc' } where
  unasked := by
    apply forall_update (fun _ pc => ∀ rest, pc.unasked = some rest → State.Asked ⟨m', Function.update s.pc t pc'⟩ rest)
    . intro rest hrest
      rcases hedge.unasked hrest with hbefore | ⟨i, rfl, hbefore⟩ | ⟨⟨c, hpc⟩, rfl, rfl⟩
      . exact (h.unasked t rest hbefore).thread hs hedge heffect
      . exact (h.unasked t _ hbefore).requestStop hs hedge heffect
      . exact (asked_of_read hs hpc hall).thread hs hedge heffect
    . exact fun u _ rest hrest => (h.unasked u rest hrest).thread hs hedge heffect
  signalled hsignalled := by
    by_cases hop : op = .signalled .cancelPending
    . subst hop
      exact (h.unasked t [] hedge.unasked_of_signalled).thread hs hedge heffect
    . have hbefore : .cancelPending ∈ s.memory.history.signalled := by
        by_cases hmode : ∃ mode, op = .signalled mode
        . obtain ⟨mode, rfl⟩ := hmode
          cases heffect with
          | signalled =>
            have hmem : ShutdownMode.cancelPending ∈ s.memory.history.signalled ++ [mode] := hsignalled
            rw [List.mem_append, List.mem_singleton] at hmem
            cases hmem with
            | inl hmem => exact hmem
            | inr heq => exact absurd (by rw [heq]) hop
        . simp only [not_exists] at hmode
          rw [← heffect.signalled_eq hmode]
          exact hsignalled
      exact (h.signalled hbefore).thread hs hedge heffect

theorem reaches (hs : (system cfg C).ReachableVia (fun s event => s.asksEveryWorker event = true) s)
    : s.Reaches := by
  apply System.ReachableVia.invariant _ _ hs
  . constructor
    . rintro (_ | _) rest h
      all_goals cases h
    . exact fun h => absurd h List.not_mem_nil
  . intro s event s' hs h hall hstep
    cases step_cases hstep with
    | thread t choice hedge heffect => exact h.thread hs.reachable hall hedge heffect
    | spurious t =>
      constructor
      . exact fun u rest hrest => ⟨(h.unasked u rest hrest).drained, (h.unasked u rest hrest).asked⟩
      . exact fun hsignalled => ⟨(h.signalled hsignalled).drained, (h.signalled hsignalled).asked⟩

end State

theorem cancellation_reaches_tasks {s : State cfg C}
    (hs : (system cfg C).ReachableVia (fun s event => s.asksEveryWorker event = true) s)
    (hsignalled : .cancelPending ∈ s.memory.history.signalled) (i : Fin cfg.workerCount)
    (hexecuting : (s.pc (.worker i)).frame.isSome = true)
    : s.memory.stopRequested i = true := by
  have hhands := Pc.hands_ne_nil hexecuting
  cases ((State.reaches hs).signalled hsignalled).asked i hhands with
  | inl hmem => cases hmem
  | inr hstop => exact hstop

def pairRun : List (Event pairConfig Unit) :=
  .step (.client ()) (.call .dispatch) :: Event.goes (.client ()) 8 ++
    Event.goes (.worker (0 : Fin 2)) 9 ++
    .step (.client ()) (.call .dispatchCancellable) :: Event.goes (.client ()) 8 ++
    Event.goes (.worker (1 : Fin 2)) 9

theorem cancellation_reaches_tasks_pair
    : ∃ s : State pairConfig Unit,
        (system pairConfig Unit).ReachableVia (fun s event => s.asksEveryWorker event = true) s ∧
          .cancelPending ∈ s.memory.history.signalled ∧
          (s.pc (.worker (1 : Fin 2))).frame.isSome = true ∧
          s.memory.stopRequested (1 : Fin 2) = true := by
  have hrun : (((system pairConfig Unit).restrict State.asksEveryWorker).run State.init
      (pairRun ++ .step (.worker (0 : Fin 2)) (.call (.shutdown .cancelPending)) ::
        Event.goes (.worker (0 : Fin 2)) 16)).map
      (fun s => decide (.cancelPending ∈ s.memory.history.signalled) &&
        (s.pc (.worker (1 : Fin 2))).frame.isSome) = some true := by
    decide +kernel
  obtain ⟨s, hs, hp⟩ := System.exists_via_of_run _ hrun
  simp only [Bool.and_eq_true, decide_eq_true_eq] at hp
  exact ⟨s, hs, hp.1, hp.2, cancellation_reaches_tasks hs hp.1 _ hp.2⟩

-- A client drains the pool and waits for both workers to exit. Then the first task asks for
-- cancellation, of which the second task never hears.
theorem cancellation_misses_task
    : ∃ s : State pairConfig Unit, (system pairConfig Unit).Reachable s ∧
        .cancelPending ∈ s.memory.history.signalled ∧
        (s.pc (.worker (1 : Fin 2))).frame.isSome = true ∧
        s.memory.stopRequested (1 : Fin 2) = false := by
  have hrun : ((system pairConfig Unit).run State.init
      (pairRun ++ .step (.client ()) (.call (.shutdown .drain)) :: Event.goes (.client ()) 9 ++
        .step (.worker (0 : Fin 2)) (.call (.shutdown .cancelPending)) ::
        Event.goes (.worker (0 : Fin 2)) 14)).map
      (fun s => decide (.cancelPending ∈ s.memory.history.signalled) &&
        (s.pc (.worker (1 : Fin 2))).frame.isSome && !s.memory.stopRequested (1 : Fin 2)) = some true := by
    decide +kernel
  obtain ⟨s, hs, hp⟩ := System.exists_of_run _ hrun
  simp only [Bool.and_eq_true, decide_eq_true_eq, Bool.not_eq_true'] at hp
  exact ⟨s, hs, hp.1.1, hp.1.2, hp.2⟩

end Vosp.Pool
