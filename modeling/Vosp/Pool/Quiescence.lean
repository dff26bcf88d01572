import Vosp.Pool.Barrier
import Vosp.Pool.Space
import Vosp.Pool.Stranded
import Vosp.Pool.WindDown

/-!
This module says when a pool that nobody shuts down stops: when all its work is done, when a task waits for its own
pool, or when a notification has been lost, which leaves a task in the queue or a producer in front of it.
-/

namespace Vosp.Pool

variable {cfg : Config} {C : Type}

namespace Pc

variable {pc : Pc cfg} {observed : Word cfg}

theorem observes_cases (h : pc.observes = some observed)
    : (∃ c j, pc = .spaceWait c j observed) ∨ pc = .workerWait observed := by
  cases pc
  case spaceWait c j _ =>
    cases h
    exact .inl ⟨c, j, rfl⟩
  case workerWait _ =>
    cases h
    exact .inr rfl
  all_goals cases h

theorem stopped_of_termination {index : Fin cfg.workerCount} (h : pc.Blocks (.termination index))
    : pc.stopped = true := by
  cases h
  rfl

end Pc

variable [Fintype C] [DecidableEq C]

namespace State

variable {s : State cfg C} {t : Thread cfg C}

theorem not_stranded (hs : (system cfg C).ReachableVia (fun s event => s.strands event = false) s)
    : ¬s.Stranded := by
  induction hs with
  | init =>
    intro h
    cases h.asleep ⟨0, cfg.workerCount_pos⟩
  | step hs hok hstep ih =>
    rw [stranded_iff hs.reachable ih hstep, hok]
    exact Bool.false_ne_true

theorem not_blocked (hs : (system cfg C).Reachable s) (hrunning : s.memory.isStopping = false)
    (hhalted : (system cfg C).Halted Event.advances s) {r : Resource cfg} (hwants : s.wants t = some r)
    : s.memory.holder r = none := by
  obtain ⟨u, hpath, hfree⟩ := (ranked hs).exists_unblocked t
  cases hpath.cases_tail with
  | inl heq =>
    subst heq
    by_contra hheld
    exact hheld (hfree r hwants)
  | inr hlast =>
    obtain ⟨v, -, r', hwants', hholder⟩ := hlast
    have hstays := stays_of_halted hhalted u
    cases r' with
    | mutex mutex =>
      have hholds : (s.pc u).holds mutex = true := (locked hs u mutex).mpr hholder
      have hobserves := observes_of_asleep hs u
      generalize hpc : s.pc u = pc at hstays hholds hobserves
      cases hstays with
      | resting | exited | epochWait => cases mutex <;> cases hholds
      | blocked hwants' hheld' =>
        rw [← hpc] at hwants'
        exact absurd (hfree _ hwants') hheld'
      | asleep hasleep =>
        obtain ⟨observed, hobserved⟩ := hobserves hasleep
        rw [Pc.not_holds_of_observes hobserved] at hholds
        cases hholds
    | termination index =>
      have hstopped := Pc.stopped_of_termination (Pc.blocks_of_wants hwants')
      rw [stopping_of_stopped hs v hstopped] at hrunning
      cases hrunning

inductive Waits (s : State cfg C) (t : Thread cfg C) : Prop where
  | resting (last : Option Result) (hpc : s.pc t = .resting none last)
  | asleep (observed : Word cfg) (hpc : (s.pc t).observes = some observed)
      (hasleep : s.memory.stateSleeper t = true)
  | epochAsleep (c : Context) (epoch : Nat) (hpc : s.pc t = .epochWait c epoch)
      (hasleep : s.memory.epochSleeper t = true)

theorem waits_of_halted (hs : (system cfg C).Reachable s) (hrunning : s.memory.isStopping = false)
    (hhalted : (system cfg C).Halted Event.advances s) (t : Thread cfg C)
    : s.Waits t := by
  have hstays := stays_of_halted hhalted t
  generalize hpc : s.pc t = pc at hstays
  cases hstays with
  | resting last => exact .resting last hpc
  | exited =>
    have hdrained := drained hs t (by rw [hpc]; rfl)
    rw [hdrained.2] at hrunning
    cases hrunning
  | blocked hwants hheld =>
    rw [← hpc] at hwants
    exact absurd (not_blocked hs hrunning hhalted hwants) hheld
  | asleep hasleep =>
    obtain ⟨observed, hobserved⟩ := observes_of_asleep hs t hasleep
    exact .asleep observed hobserved hasleep
  | epochWait c epoch hasleep => exact .epochAsleep c epoch hpc hasleep

omit [Fintype C] [DecidableEq C] in
theorem Waits.silent (h : s.Waits t)
    : (s.pc t).notifies s.memory = false ∧ (s.pc t).claimNotifies = false ∧ (s.pc t).cancelNotifies = false ∧
        (s.pc t).announces = false ∧ (s.pc t).notifiesEpoch = false := by
  cases h with
  | resting last hpc =>
    rw [hpc]
    exact ⟨rfl, rfl, rfl, rfl, rfl⟩
  | asleep observed hpc =>
    rcases Pc.observes_cases hpc with ⟨c, j, hpc⟩ | hpc
    all_goals
      rw [hpc]
      exact ⟨rfl, rfl, rfl, rfl, rfl⟩
  | epochAsleep c epoch hpc =>
    rw [hpc]
    exact ⟨rfl, rfl, rfl, rfl, rfl⟩

omit [Fintype C] [DecidableEq C] in
theorem Waits.wakes_eq (h : s.Waits t) : Pc.wakes (s.memory.stateSleeper t) (s.pc t) = 0 := by
  cases h with
  | resting last hpc =>
    rw [hpc, Pc.wakes, Bool.and_comm]
    rfl
  | asleep observed hpc hasleep =>
    rw [Pc.wakes, hasleep]
    rfl
  | epochAsleep c epoch hpc =>
    rw [hpc, Pc.wakes, Bool.and_comm]
    rfl

theorem allAsleep_of_waits (hs : (system cfg C).Reachable s) (h : ∀ t, s.Waits t) (hnone : ∀ i, ¬s.Hung i)
    : s.AllAsleep := by
  intro i
  have hkind := (counted hs).kind (.worker i)
  cases h (.worker i) with
  | resting last hpc =>
    rw [hpc] at hkind
    cases hkind
  | asleep observed hpc hasleep => exact hasleep
  | epochAsleep c epoch hpc hasleep => exact absurd ⟨c, epoch, hpc, hasleep⟩ (hnone i)

def Starved (s : State cfg C) : Prop :=
  ∃ t c j observed, s.pc t = .spaceWait c j observed ∧ s.memory.stateSleeper t = true ∧
    s.memory.pendingTasks < cfg.queueCapacity

theorem not_starved_of_waits (hs : (system cfg C).ReachableVia (fun s event => s.starves event = false) s)
    (hrunning : s.memory.isStopping = false) (h : ∀ t, s.Waits t)
    : ¬s.Starved := by
  rintro ⟨t, c, j, observed, hpc, hasleep, hspace⟩
  have hnotices : s.notices = 0 := by
    apply Count.sum_eq_zero_iff.mpr
    intro u
    rw [Pc.notices, (h u).silent.2.1]
    rfl
  have hwoken : s.woken = 0 := Count.sum_eq_zero_iff.mpr fun u => (h u).wakes_eq
  have hslept : (s.pc t).slept = true := by
    rw [hpc]
    apply slept_of_asleep hs.reachable t hasleep c j
    rw [hpc]
    rfl
  rcases served hs with hstopping | hcovered | ⟨u, hu⟩
  . rw [hrunning] at hstopping
    cases hstopping
  . unfold Covered freeSlots at hcovered
    rw [hnotices, hwoken] at hcovered
    have hzero := Count.sum_eq_zero_iff.mp (Nat.le_zero.mp (hcovered.resolve_right (by omega))) t
    rw [Pc.sleeps, hasleep, hslept] at hzero
    cases hzero
  . rw [(h u).silent.2.2.1] at hu
    cases hu

-- A step that loses a notification: a task stays in the queue or a producer in front of it.
def loses (s : State cfg C) (event : Event cfg C) : Bool := s.strands event || s.starves event

/--
All work is done, and the workers sleep until there is more.
-/
structure Quiescent (s : State cfg C) : Prop where
  workers : ∀ i, (∃ observed, s.pc (.worker i) = .workerWait observed) ∧ s.memory.stateSleeper (.worker i) = true
  returned : ∀ name, ∃ last, s.pc (.client name) = .resting none last
  idle : s.Idle
  settled : ∀ item ∈ s.memory.history.accepted, s.At item .executed ∨ s.At item .cancelled

omit [Fintype C] [DecidableEq C] in
theorem Waits.cases_of_empty (h : s.Waits t) (hempty : s.memory.pendingTasks = 0) (hstarved : ¬s.Starved)
    : (∃ last, s.pc t = .resting none last) ∨
        (∃ observed, s.pc t = .workerWait observed) ∧ s.memory.stateSleeper t = true ∨
          ∃ c epoch, s.pc t = .epochWait c epoch ∧ s.memory.epochSleeper t = true := by
  cases h with
  | resting last hpc => exact .inl ⟨last, hpc⟩
  | asleep observed hpc hasleep =>
    rcases Pc.observes_cases hpc with ⟨c, j, hspace⟩ | hworker
    . have hfree : s.memory.pendingTasks < cfg.queueCapacity := by
        rw [hempty]
        exact cfg.queueCapacity_pos
      exact absurd ⟨t, c, j, observed, hspace, hasleep, hfree⟩ hstarved
    . exact .inr (.inl ⟨⟨observed, hworker⟩, hasleep⟩)
  | epochAsleep c epoch hpc hasleep => exact .inr (.inr ⟨c, epoch, hpc, hasleep⟩)

theorem pending_eq_zero_of_waits (hs : (system cfg C).Reachable s) (hrunning : s.memory.isStopping = false)
    (h : ∀ t, s.Waits t) (hnone : ∀ i, ¬s.Hung i) (hstranded : ¬s.Stranded)
    : s.memory.pendingTasks = 0 := by
  by_contra hqueued
  exact hstranded {
    running := hrunning
    queued := Nat.pos_of_ne_zero hqueued
    asleep := allAsleep_of_waits hs h hnone
    silent := fun t => (h t).silent.1
  }

theorem idle_of_workerWait (hs : (system cfg C).Reachable s) (hempty : s.memory.pendingTasks = 0)
    (hworkers : ∀ i, ∃ observed, s.pc (.worker i) = .workerWait observed)
    : s.Idle := by
  have hcounted := counted hs
  constructor
  case queue_eq =>
    apply List.eq_nil_of_length_eq_zero
    rw [List.length_append, ← hcounted.pending_eq, hempty]
  case hands_eq =>
    rintro (i | name)
    . obtain ⟨observed, hpc⟩ := hworkers i
      rw [hpc]
      rfl
    . exact Pc.hands_eq_nil (hcounted.kind (.client name))
  case active_eq =>
    rintro (i | name)
    . obtain ⟨observed, hpc⟩ := hworkers i
      rw [hpc]
      rfl
    . exact Pc.active_eq_zero (hcounted.kind (.client name))

theorem quiescent_of_halted (hs : (system cfg C).Reachable s) (hrunning : s.memory.isStopping = false)
    (hhalted : (system cfg C).Halted Event.advances s) (hnone : ∀ i, ¬s.Hung i) (hstranded : ¬s.Stranded)
    (hstarved : ¬s.Starved)
    : s.Quiescent := by
  have hcounted := counted hs
  have hwaits := waits_of_halted hs hrunning hhalted
  have hempty := pending_eq_zero_of_waits hs hrunning hwaits hnone hstranded
  have hcases := fun t => (hwaits t).cases_of_empty hempty hstarved
  have hworkers : ∀ i, (∃ observed, s.pc (.worker i) = .workerWait observed) ∧
      s.memory.stateSleeper (.worker i) = true := by
    intro i
    have hkind := hcounted.kind (.worker i)
    rcases hcases (.worker i) with ⟨last, hpc⟩ | hasleep | hhung
    . rw [hpc] at hkind
      cases hkind
    . exact hasleep
    . exact absurd hhung (hnone i)
  have hidle := idle_of_workerWait hs hempty fun i => (hworkers i).1
  have hawake := epochAwake_of_exited hs hidle fun t => (hwaits t).silent.2.2.2
  refine ⟨hworkers, ?_, hidle, fun item hitem => at_of_idle hs hidle hitem⟩
  intro name
  rcases hcases (.client name) with hrest | ⟨⟨observed, hpc⟩, -⟩ | ⟨c, epoch, -, hasleep⟩
  . exact hrest
  . have hkind := hcounted.kind (.client name)
    rw [hpc] at hkind
    cases hkind
  . rw [hawake] at hasleep
    cases hasleep

theorem Quiescent.halted (h : s.Quiescent) : (system cfg C).Halted Event.advances s := by
  intro event hadvances
  cases event with
  | spurious t => cases hadvances
  | step t choice =>
    have hnone : s.step (.step t choice) = none := by
      cases t with
      | worker i =>
        obtain ⟨⟨observed, hpc⟩, hasleep⟩ := h.workers i
        simp only [step, hpc, Pc.code]
        cases choice
        case go => simp only [Code.exec, hasleep, ↓reduceIte, Option.map_none]
        all_goals rfl
      | client name =>
        obtain ⟨last, hlast⟩ := h.returned name
        simp only [step, hlast, Pc.code]
        cases choice
        case call => cases hadvances
        all_goals rfl
    exact hnone

theorem not_starved_of_halted (hs : (system cfg C).ReachableVia (fun s event => s.loses event = false) s)
    (hrunning : s.memory.isStopping = false) (hhalted : (system cfg C).Halted Event.advances s)
    : ¬s.Starved := by
  apply not_starved_of_waits _ hrunning (waits_of_halted hs.reachable hrunning hhalted)
  apply hs.mono
  intro s event hloses
  exact (Bool.or_eq_false_iff.mp hloses).2

theorem not_stranded_of_lossless (hs : (system cfg C).ReachableVia (fun s event => s.loses event = false) s)
    : ¬s.Stranded := by
  apply not_stranded
  apply hs.mono
  intro s event hloses
  exact (Bool.or_eq_false_iff.mp hloses).1

/--
The ways in which a pool that runs stops.
-/
inductive Stopped (s : State cfg C) : Prop where
  | done (hquiescent : s.Quiescent)
  | hung (i : Fin cfg.workerCount) (hhung : s.Hung i)
  | stranded (hstranded : s.Stranded)
  | starved (hstarved : s.Starved)

theorem stopped_of_halted (hs : (system cfg C).Reachable s) (hrunning : s.memory.isStopping = false)
    (hhalted : (system cfg C).Halted Event.advances s)
    : s.Stopped := by
  by_cases hhung : ∃ i, s.Hung i
  . obtain ⟨i, hi⟩ := hhung
    exact .hung i hi
  by_cases hstranded : s.Stranded
  . exact .stranded hstranded
  by_cases hstarved : s.Starved
  . exact .starved hstarved
  . exact .done (quiescent_of_halted hs hrunning hhalted (not_exists.mp hhung) hstranded hstarved)

theorem quiescent_or_hung (hs : (system cfg C).ReachableVia (fun s event => s.loses event = false) s)
    (hrunning : s.memory.isStopping = false) (hhalted : (system cfg C).Halted Event.advances s)
    : s.Quiescent ∨ ∃ i, s.Hung i := by
  cases stopped_of_halted hs.reachable hrunning hhalted with
  | done hquiescent => exact .inl hquiescent
  | hung i hhung => exact .inr ⟨i, hhung⟩
  | stranded hstranded => exact absurd hstranded (not_stranded_of_lossless hs)
  | starved hstarved => exact absurd hstarved (not_starved_of_halted hs hrunning hhalted)

structure StopsWhenDone (s : State cfg C) : Prop where
  halted : (system cfg C).Halted Event.advances s → s.Stopped
  quiescent : s.Quiescent → (system cfg C).Halted Event.advances s
  lossless : (system cfg C).ReachableVia (fun s event => s.loses event = false) s →
    (system cfg C).Halted Event.advances s → s.Quiescent ∨ ∃ i, s.Hung i

end State

theorem pool_stops_when_done {s : State cfg C} (hs : (system cfg C).Reachable s)
    (hrunning : s.memory.isStopping = false)
    : s.StopsWhenDone where
  halted := State.stopped_of_halted hs hrunning
  quiescent := State.Quiescent.halted
  lossless hlossless := State.quiescent_or_hung hlossless hrunning

theorem pool_stops_when_done_tiny
    : ∃ s : State tinyConfig Unit, (system tinyConfig Unit).ReachableVia (fun s event => s.loses event = false) s ∧
        s.memory.history.executed.length = 1 ∧ s.memory.stateSleeper (.worker (0 : Fin 1)) = true ∧
          s.StopsWhenDone := by
  have hrun : (((system tinyConfig Unit).restrict (fun s event => !s.loses event)).run State.init
      (Event.goes (.worker (0 : Fin 1)) 4 ++ .step (.client ()) (.call .dispatch) ::
        Event.goes (.client ()) 7 ++ .step (.client ()) (.unblock (.worker (0 : Fin 1))) ::
        Event.goes (.client ()) 1 ++ Event.goes (.worker (0 : Fin 1)) 11 ++
        .step (.worker (0 : Fin 1)) (.ret (.result (.ok ()))) :: Event.goes (.worker (0 : Fin 1)) 8)).map
      (fun s => s.memory.history.executed.length == 1 && !s.memory.isStopping &&
        s.memory.stateSleeper (.worker (0 : Fin 1))) = some true := by
    decide +kernel
  obtain ⟨s, hs, hp⟩ := System.exists_via_of_run _ hrun
  simp only [Bool.and_eq_true, Bool.not_eq_true', beq_iff_eq] at hp
  obtain ⟨⟨hexecuted, hrunning⟩, hasleep⟩ := hp
  exact ⟨s, hs.mono (by simp), hexecuted, hasleep, pool_stops_when_done hs.reachable hrunning⟩

end Vosp.Pool
