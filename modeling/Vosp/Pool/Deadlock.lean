import Vosp.Lib.WaitGraph
import Vosp.Pool.Waiting

/-!
This module contains the proof that the mutexes of a pool and the joins of its workers cannot
deadlock. A thread wants the shutdown mutex before it joins, and joins before it wants another mutex.
-/

namespace Vosp.Pool

variable {cfg : Config} {C : Type}

inductive Resource (cfg : Config) where
  | mutex (mutex : Mutex)
  | termination (index : Fin cfg.workerCount)
  deriving DecidableEq

def Resource.level (resource : Resource cfg) : Nat :=
  match resource with
  | .mutex .shutdown => 2
  | .termination _ => 1
  | .mutex _ => 0

def Code.wants (code : Code cfg C κ) : Option (Resource cfg) :=
  match code with
  | .lock mutex _ => some (.mutex mutex)
  | .join index _ => some (.termination index)
  | _ => none

def Memory.holder (m : Memory cfg C) (resource : Resource cfg) : Option (Thread cfg C) :=
  match resource with
  | .mutex mutex => m.owner mutex
  | .termination index => if m.exited (.worker index) then none else some (.worker index)

namespace Pc

variable (C) in
def wants (pc : Pc cfg) : Option (Resource cfg) := (pc.code : Code cfg C (Pc cfg)).wants

def inBody (pc : Pc cfg) : Bool :=
  match pc with
  | .resting (some _) _ => true
  | _ => false

end Pc

inductive Pc.Blocks : Pc cfg → Resource cfg → Prop where
  | producerLock : Blocks (.producerLock c j) (.mutex .producer)
  | cancelLock : Blocks (.cancelLock c p first) (.mutex first.mutex)
  | shutdownLock : Blocks (.shutdownLock mode) (.mutex .shutdown)
  | signalLock : Blocks (.signalLock c mode) (.mutex .producer)
  | workersLock : Blocks (.workersLock c) (.mutex .workers)
  | joinLock : Blocks .joinLock (.mutex .workers)
  | join : Blocks (.join (index :: rest)) (.termination index)
  | consumerLock : Blocks .consumerLock (.mutex .consumer)

namespace Pc

variable {pc : Pc cfg} {r : Resource cfg} {mutex : Mutex}

theorem blocks_of_wants (h : pc.wants C = some r) : pc.Blocks r := by
  cases pc
  case resting c _ => cases c <;> cases h
  case slotWrite group => cases group <;> cases h
  case cancelSlot remaining => cases remaining <;> cases h
  case workersStop rest => cases rest <;> cases h
  case workersNotify =>
    rw [wants, code] at h
    split at h <;> cases h
  case join rest =>
    cases rest
    . cases h
    . cases h
      constructor
  all_goals
    cases h
    try constructor

theorem Blocks.level_lt_of_holds (h : pc.Blocks r) (hholds : pc.holds mutex = true)
    : r.level < (Resource.mutex mutex : Resource cfg).level := by
  cases h
  all_goals cases mutex
  case cancelLock.shutdown first => cases first <;> exact Nat.zero_lt_two
  all_goals first | exact Nat.zero_lt_two | exact Nat.one_lt_two | cases hholds

theorem Blocks.level_of_onWorker (h : pc.Blocks r) (hworker : pc.onWorker = true) : r.level = 0 := by
  cases h
  case cancelLock first => cases first <;> rfl
  all_goals first | rfl | cases hworker

theorem not_holds_of_inBody (h : pc.inBody = true) : pc.holds mutex = false := by
  cases pc
  case resting => cases mutex <;> rfl
  all_goals cases h

theorem not_holds_of_observes {observed : Word cfg} (h : pc.observes = some observed)
    : pc.holds mutex = false := by
  cases pc
  case spaceWait | workerWait => cases mutex <;> rfl
  all_goals cases h

theorem not_holds_of_awaitedEpoch {epoch : Nat} (h : pc.awaitedEpoch = some epoch)
    : pc.holds mutex = false := by
  cases pc
  case epochWait => cases mutex <;> rfl
  all_goals cases h

theorem Blocks.eq_shutdown_of_holds {index : Fin cfg.workerCount} (h : pc.Blocks (.termination index))
    (hholds : pc.holds mutex = true)
    : mutex = .shutdown := by
  cases h
  cases mutex
  case shutdown => rfl
  all_goals cases hholds

end Pc

variable [Fintype C] [DecidableEq C]

namespace State

variable {s : State cfg C} {t u : Thread cfg C} {mutex : Mutex}

def wants (s : State cfg C) (t : Thread cfg C) : Option (Resource cfg) := (s.pc t).wants C

theorem not_owner (hs : (system cfg C).Reachable s) (h : (s.pc t).holds mutex = false)
    : s.memory.owner mutex ≠ some t := by
  intro howner
  have hholds : (s.pc t).holds mutex = true := (locked hs t mutex).mpr howner
  rw [h] at hholds
  cases hholds

theorem ranked (hs : (system cfg C).Reachable s)
    : WaitGraph.Ranked Resource.level s.wants s.memory.holder := by
  intro u r r' hholder hwants
  have hblocks := Pc.blocks_of_wants hwants
  cases r with
  | mutex mutex => exact hblocks.level_lt_of_holds ((locked hs u mutex).mpr hholder)
  | termination index =>
    simp only [Memory.holder] at hholder
    split at hholder
    . cases hholder
    . cases hholder
      have hkind := (counted hs).kind (.worker index)
      rw [hblocks.level_of_onWorker hkind]
      exact Nat.zero_lt_one

structure DeadlockFree (s : State cfg C) : Prop where
  body : ∀ t mutex, (s.pc t).inBody = true → s.memory.owner mutex ≠ some t
  asleep : ∀ t mutex, s.memory.stateSleeper t = true ∨ s.memory.epochSleeper t = true →
    s.memory.owner mutex ≠ some t
  join : ∀ t index mutex, s.wants t = some (.termination index) → s.memory.owner mutex = some t →
    mutex = .shutdown
  worker : ∀ index, s.wants (.worker index) ≠ some (.mutex .shutdown) ∧
    ∀ index', s.wants (.worker index) ≠ some (.termination index')
  acyclic : WaitGraph.Acyclic (WaitGraph.Waits s.wants s.memory.holder)

end State

theorem pool_deadlock_free {s : State cfg C} (hs : (system cfg C).Reachable s) : s.DeadlockFree := by
  constructor
  case body =>
    intro t mutex hbody
    exact State.not_owner hs (Pc.not_holds_of_inBody hbody)
  case asleep =>
    intro t mutex hasleep
    cases hasleep with
    | inl hstate =>
      obtain ⟨observed, hobserved⟩ := State.observes_of_asleep hs t hstate
      exact State.not_owner hs (Pc.not_holds_of_observes hobserved)
    | inr hepoch =>
      obtain ⟨epoch, hawaited⟩ := State.epochWait_of_asleep hs t hepoch
      exact State.not_owner hs (Pc.not_holds_of_awaitedEpoch hawaited)
  case join =>
    intro t index mutex hwants howner
    exact (Pc.blocks_of_wants hwants).eq_shutdown_of_holds ((State.locked hs t mutex).mpr howner)
  case worker =>
    intro index
    have hkind := (State.counted hs).kind (.worker index)
    constructor
    . intro hwants
      exact absurd ((Pc.blocks_of_wants hwants).level_of_onWorker hkind) (Nat.succ_ne_zero 1)
    . intro index' hwants
      exact absurd ((Pc.blocks_of_wants hwants).level_of_onWorker hkind) (Nat.succ_ne_zero 0)
  case acyclic => exact (State.ranked hs).acyclic

theorem pool_deadlock_free_tiny
    : ∃ s : State tinyConfig Unit, s.memory.owner .shutdown = some (.client ()) ∧
        s.wants (.client ()) = some (.termination (0 : Fin 1)) ∧
        s.wants (.worker (0 : Fin 1)) = some (.mutex .producer) ∧ s.DeadlockFree := by
  have hrun : ((system tinyConfig Unit).run State.init
      (.step (.client ()) (.call .dispatch) :: Event.goes (.client ()) 8 ++
        Event.goes (.worker (0 : Fin 1)) 9 ++ .step (.client ()) (.call (.shutdown .drain)) ::
        Event.goes (.client ()) 9 ++ [.step (.worker (0 : Fin 1)) (.call (.shutdown .cancelPending))])).map
      (fun s => decide (s.memory.owner .shutdown = some (.client ())) &&
        decide (s.wants (.client ()) = some (.termination (0 : Fin 1))) &&
        decide (s.wants (.worker (0 : Fin 1)) = some (.mutex .producer))) = some true := by
    decide +kernel
  obtain ⟨s, hs, hp⟩ := System.exists_of_run _ hrun
  simp only [Bool.and_eq_true, decide_eq_true_eq] at hp
  obtain ⟨⟨howner, hclient⟩, hworker⟩ := hp
  exact ⟨s, howner, hclient, hworker, pool_deadlock_free hs⟩

end Vosp.Pool
