import Vosp.Lib.WaitGraph
import Vosp.Logger.LoggerDelivery

/-!
This module contains which threads of the asynchronous logger wait for each other on a mutex or on the end
of the worker. A callback that calls `shutdown` deadlocks with a client that joins the worker, and this is
the only way to a deadlock.
-/

namespace Vosp.AsyncLogger

inductive Resource where
  | mutex (mutex : Mutex)
  | termination
  deriving DecidableEq

def WorkerPc.wants (pc : WorkerPc) : Option Resource :=
  match pc with
  | .lock | .relock => some (.mutex .queue)
  | _ => none

inductive CallPc.Blocks : CallPc → Resource → Prop where
  | writeLock (record : LogRecord) : Blocks (.writeLock record) (.mutex .queue)
  | flushLock : Blocks .flushLock (.mutex .queue)
  | stopLock : Blocks .stopLock (.mutex .queue)
  | shutdownLock : Blocks .shutdownLock (.mutex .shutdown)
  | join : Blocks .join .termination

theorem CallPc.Blocks.eq_shutdown_of_holds {pc : CallPc} {r : Resource} {mutex : Mutex} (h : pc.Blocks r)
    (hholds : pc.holds mutex = true)
    : mutex = .shutdown ∧ r ≠ .mutex .shutdown := by
  cases h <;> cases mutex
  case stopLock.shutdown | join.shutdown => exact ⟨rfl, nofun⟩
  all_goals cases hholds

theorem WorkerPc.wants_eq {pc : WorkerPc} {r : Resource} (h : pc.wants = some r)
    : r = .mutex .queue ∧ ∀ mutex, pc.holds mutex = false := by
  cases pc
  case lock | relock =>
    cases h
    exact ⟨rfl, fun mutex => by cases mutex <;> rfl⟩
  all_goals cases h

namespace State

def wants (s : State) (t : Thread) : Option Resource :=
  match s.call t with
  | .writeLock _ | .flushLock | .stopLock => some (.mutex .queue)
  | .shutdownLock => some (.mutex .shutdown)
  | .join => if s.memory.joined ∨ t = .worker then none else some .termination
  | .idle => if t = .worker then s.worker.wants else none
  | _ => none

def holder (s : State) (resource : Resource) : Option Thread :=
  match resource with
  | .mutex mutex => s.memory.owner mutex
  | .termination => if s.worker = .exited then none else some .worker

structure DeadlockFree (s : State) : Prop where
  acyclic : WaitGraph.Acyclic (WaitGraph.Waits s.wants s.holder)
  join : ∀ t mutex, s.wants t = some .termination → s.wants .worker = some (.mutex mutex) →
    s.memory.owner mutex ≠ some t

def joining (s : State) : Bool :=
  match s.memory.owner .shutdown with
  | some (.client name) => s.call (.client name) = .join
  | _ => false

-- A callback calls `shutdown` while a client joins the worker, or a client comes to the join while a callback
-- is still to get the mutex of `shutdown`.
def entangles (s : State) (event : Event) : Bool :=
  match event with
  | .call .worker .shutdown => s.joining
  | .step (.client name) => s.call (.client name) = .stopUnlock ∧ s.call .worker = .shutdownLock
  | _ => false

def Apart (s : State) : Prop := s.call .worker = .shutdownLock → ∀ name, s.call (.client name) ≠ .join

variable {policy : LoggerPolicy} {metadata : LoggerMetadataPolicy} {s s' : State} {event : Event} {t u : Thread}
  {mutex : Mutex} {r r' : Resource}

theorem owner_of_join (h : s.Valid policy) {name : Nat} (hcall : s.call (.client name) = .join)
    : s.memory.owner .shutdown = some (.client name) := by
  rw [← h.owned (.client name) .shutdown, holds, hcall]
  rfl

theorem joining_iff (h : s.Valid policy) : s.joining = true ↔ ∃ name, s.call (.client name) = .join := by
  constructor
  . intro hjoining
    unfold joining at hjoining
    split at hjoining
    . next name _ => exact ⟨name, of_decide_eq_true hjoining⟩
    . cases hjoining
  . rintro ⟨name, hcall⟩
    simp only [joining, owner_of_join h hcall]
    exact decide_eq_true hcall

theorem wants_cases (h : s.wants t = some r)
    : ((s.call t).Blocks r ∧ (r = .termination → s.memory.joined = false ∧ t ≠ .worker)) ∨
        (s.call t = .idle ∧ s.worker.wants = some r) := by
  cases hcall : s.call t
  all_goals simp only [wants, hcall] at h
  case idle =>
    split at h
    . exact .inr ⟨rfl, h⟩
    . cases h
  case join =>
    split at h
    . cases h
    . next hjoin =>
      cases h
      rw [not_or, Bool.not_eq_true] at hjoin
      exact .inl ⟨.join, fun _ => hjoin⟩
  case writeLock | flushLock | stopLock | shutdownLock =>
    cases h
    exact .inl ⟨by constructor, nofun⟩
  all_goals cases h

theorem call_of_wants_shutdown (h : s.wants t = some (.mutex .shutdown)) : s.call t = .shutdownLock := by
  rcases wants_cases h with ⟨hblocks, -⟩ | ⟨-, hworker⟩
  . generalize s.call t = pc at hblocks
    cases hblocks
    rfl
  . cases (WorkerPc.wants_eq hworker).1

theorem join_of_wants_termination (h : s.wants t = some .termination)
    : s.call t = .join ∧ s.memory.joined = false ∧ t ≠ .worker := by
  rcases wants_cases h with ⟨hblocks, hjoin⟩ | ⟨-, hworker⟩
  . refine ⟨?_, hjoin rfl⟩
    generalize s.call t = pc at hblocks
    cases hblocks
    rfl
  . cases (WorkerPc.wants_eq hworker).1

theorem eq_shutdown_of_wants (hn : s.Nested) (h : s.wants t = some r) (hholds : s.holds t mutex = true)
    : mutex = .shutdown ∧ r ≠ .mutex .shutdown := by
  rcases wants_cases h with ⟨hblocks, -⟩ | ⟨hidle, hworker⟩
  . rw [holds_of_call hn (by rintro hidle; rw [hidle] at hblocks; cases hblocks)] at hholds
    exact hblocks.eq_shutdown_of_holds hholds
  . rw [holds, hidle, idle_holds, Bool.false_or, (WorkerPc.wants_eq hworker).2, Bool.and_false] at hholds
    cases hholds

def level (s : State) (resource : Resource) : Nat :=
  match resource with
  | .mutex .queue => 0
  | .mutex .shutdown => 2
  | .termination => if s.call .worker = .shutdownLock then 3 else 1

theorem Apart.ranked (h : s.Apart) (hv : s.Valid policy) : WaitGraph.Ranked s.level s.wants s.holder := by
  intro u r r' hholder hwants
  cases r with
  | mutex mutex =>
    obtain ⟨rfl, hother⟩ := eq_shutdown_of_wants hv.nested hwants ((hv.owned u mutex).mpr hholder)
    cases r' with
    | mutex mutex' =>
      cases mutex' with
      | queue => exact Nat.zero_lt_two
      | shutdown => exact absurd rfl hother
    | termination =>
      obtain ⟨hjoin, -, hclient⟩ := join_of_wants_termination hwants
      cases u with
      | worker => exact absurd rfl hclient
      | client name =>
        have hcallback : s.call .worker ≠ .shutdownLock := fun hcall => h hcall name hjoin
        simp only [level, if_neg hcallback]
        exact Nat.one_lt_two
  | termination =>
    simp only [holder] at hholder
    split at hholder
    . cases hholder
    . cases hholder
      cases r' with
      | mutex mutex' =>
        cases mutex' with
        | queue =>
          simp only [level]
          split
          . exact Nat.zero_lt_succ 2
          . exact Nat.zero_lt_one
        | shutdown =>
          simp only [level, if_pos (call_of_wants_shutdown hwants)]
          exact Nat.lt_succ_self 2
      | termination => exact absurd rfl (join_of_wants_termination hwants).2.2

theorem not_acyclic (hv : s.Valid policy) (hcallback : s.call .worker = .shutdownLock) {name : Nat}
    (hjoin : s.call (.client name) = .join)
    : ¬WaitGraph.Acyclic (WaitGraph.Waits s.wants s.holder) := by
  have hinside : s.worker.inCallback = true := hv.nested (by rw [hcallback]; nofun)
  have hexited : s.worker ≠ .exited := by
    intro hexited
    rw [hexited] at hinside
    cases hinside
  have hjoined : s.memory.joined = false := by
    rw [← Bool.not_eq_true]
    exact fun hjoined => hexited (hv.ledger.joined hjoined)
  have hclient : s.wants (.client name) = some .termination := by
    simp only [wants, hjoin]
    rw [if_neg]
    simp [hjoined]
  have hworker : s.wants .worker = some (.mutex .shutdown) := by
    simp only [wants, hcallback]
  have hwaits : WaitGraph.Waits s.wants s.holder (.client name) .worker := ⟨_, hclient, if_neg hexited⟩
  have hwaits' : WaitGraph.Waits s.wants s.holder .worker (.client name) := ⟨_, hworker, owner_of_join hv hjoin⟩
  exact fun h => h _ (.tail (.single hwaits) hwaits')

theorem deadlockFree_iff (hv : s.Valid policy) : s.DeadlockFree ↔ s.Apart := by
  constructor
  . intro h hcallback name hjoin
    exact not_acyclic hv hcallback hjoin h.acyclic
  . intro h
    constructor
    case acyclic => exact (h.ranked hv).acyclic
    case join =>
      intro t mutex hclient hworker howner
      obtain ⟨hjoin, -, hne⟩ := join_of_wants_termination hclient
      cases t with
      | worker => exact hne rfl
      | client name =>
        obtain ⟨rfl, -⟩ := eq_shutdown_of_wants hv.nested hclient ((hv.owned _ mutex).mpr howner)
        exact h (call_of_wants_shutdown hworker) name hjoin

theorem callback_edge {op : Op} {exited : Prop} {m : Memory} {pc pc' : CallPc}
    (h : CallEdge policy exited t m pc op pc')
    : pc' ≠ .shutdownLock ∧ (pc' = .join ↔ pc = .stopUnlock) := by
  cases h
  case stopUnlock => exact ⟨nofun, Iff.intro (fun _ => rfl) (fun _ => rfl)⟩
  all_goals exact ⟨nofun, nofun, nofun⟩

theorem worker_ne_client (name : Nat) : Thread.worker ≠ .client name := by
  intro heq
  cases heq

theorem Apart.start_iff (h : s.Apart) (hv : s.Valid policy) (t : Thread) (request : Request)
    : (s.startCall t request).Apart ↔ s.entangles (.call t request) = false := by
  cases t with
  | client name =>
    have hworker : (s.startCall (.client name) request).call .worker = s.call .worker :=
      startCall_call_of_ne (worker_ne_client name)
    have hself : (s.startCall (.client name) request).call (.client name) ≠ .join := by
      cases request <;> simp [startCall, setCall]
    refine iff_of_true ?_ rfl
    intro hcallback name'
    rw [hworker] at hcallback
    by_cases hname : name' = name
    . subst hname
      exact hself
    . rw [startCall_call_of_ne (fun heq => hname (Thread.client.inj heq))]
      exact h hcallback name'
  | worker =>
    cases request with
    | write | flush =>
      refine iff_of_true ?_ rfl
      intro hcallback
      simp [startCall, setCall] at hcallback
    | shutdown =>
      have hself : (s.startCall .worker .shutdown).call .worker = .shutdownLock := by
        simp [startCall, setCall]
      have hother (name : Nat) : (s.startCall .worker .shutdown).call (.client name) = s.call (.client name) :=
        startCall_call_of_ne (worker_ne_client name).symm
      simp only [Apart, hself, hother, entangles]
      rw [← Bool.not_eq_true, joining_iff hv, not_exists]
      exact ⟨fun hapart => hapart trivial, fun hnone _ => hnone⟩

theorem Apart.call_iff (h : s.Apart) {op : Op} {pc : CallPc}
    (hedge : CallEdge policy (s.worker = .exited) t s.memory (s.call t) op pc)
    : (({ s with memory := op.apply t s.memory } : State).setCall t pc).Apart ↔ s.entangles (.step t) = false := by
  obtain ⟨hmutex, hjoin⟩ := callback_edge hedge
  cases t with
  | worker =>
    refine iff_of_true ?_ rfl
    intro hcallback
    simp only [setCall, Function.update_self] at hcallback
    exact absurd hcallback hmutex
  | client name =>
    simp only [Apart, setCall, Function.update_of_ne (worker_ne_client name), entangles, decide_eq_false_iff_not,
      not_and]
    constructor
    . intro hapart hstop hcallback
      apply hapart hcallback name
      rw [Function.update_self, hjoin]
      exact hstop
    . intro hapart hcallback name'
      by_cases hname : name' = name
      . subst hname
        rw [Function.update_self, Ne, hjoin]
        exact fun hstop => hapart hstop hcallback
      . rw [Function.update_of_ne (fun heq => hname (Thread.client.inj heq))]
        exact h hcallback name'

theorem Apart.step_iff (h : s.Apart) (hv : s.Valid policy) (hstep : Step policy metadata s event s')
    : s'.Apart ↔ s.entangles event = false := by
  cases hstep with
  | @start t request => exact h.start_iff hv t request
  | call hedge => exact h.call_iff hedge
  | _ => exact iff_of_true h rfl

end State

end Vosp.AsyncLogger

namespace Vosp

open AsyncLogger

theorem async_logger_deadlock_iff {policy : LoggerPolicy} {metadata : LoggerMetadataPolicy} {s : AsyncLogger.State}
    (hs : (AsyncLogger.system policy metadata).ReachableVia (fun s event => s.entangles event = false) s)
    : s.DeadlockFree ∧ ∀ event s', (AsyncLogger.system policy metadata).step s event = some s' →
        (s'.DeadlockFree ↔ s.entangles event = false) := by
  have hapart : s.Apart := by
    apply System.ReachableVia.invariant _ _ hs
    . nofun
    . intro s event s' hs h hok hstep
      exact (h.step_iff (State.valid hs.reachable) (State.step_cases hstep)).mpr hok
  refine ⟨(State.deadlockFree_iff (State.valid hs.reachable)).mpr hapart, ?_⟩
  intro event s' hstep
  rw [State.deadlockFree_iff (State.valid (hs.reachable.next hstep))]
  exact hapart.step_iff (State.valid hs.reachable) (State.step_cases hstep)

def sampleCallback : List Event :=
  .call (.client 1) (.write .info sampleError) :: List.replicate 7 (.step (.client 1)) ++
    List.replicate 5 .work ++ [.backend 5 true]

theorem async_logger_deadlock_iff_sample
    : ∃ s : AsyncLogger.State, s.wants (.client 2) = some (.mutex .shutdown) ∧
        s.memory.owner .shutdown = some .worker ∧ s.call .worker = .join ∧ s.DeadlockFree := by
  have hrun : (((AsyncLogger.system acceptAllPolicy fullMetadataPolicy).restrict
      (fun s event => !s.entangles event)).run .init
      (sampleCallback ++ .call .worker .shutdown :: .call (.client 2) .shutdown ::
        List.replicate 6 (.step .worker))).map
      (fun s => decide (s.wants (.client 2) = some (.mutex .shutdown)) &&
        (decide (s.memory.owner .shutdown = some .worker) && decide (s.call .worker = .join))) =
        some true := by
    decide +kernel
  obtain ⟨s, hs, hp⟩ := System.exists_via_of_run _ hrun
  simp only [Bool.and_eq_true, decide_eq_true_eq, Bool.not_eq_true'] at hp hs
  exact ⟨s, hp.1, hp.2.1, hp.2.2, (async_logger_deadlock_iff hs).1⟩

-- Client 2 joins the worker, whose callback calls shutdown as well.
theorem async_logger_deadlocks
    : ¬∀ s, (AsyncLogger.system acceptAllPolicy fullMetadataPolicy).Reachable s → s.DeadlockFree := by
  intro h
  have hrun : ((AsyncLogger.system acceptAllPolicy fullMetadataPolicy).run .init
      (sampleCallback ++ .call (.client 2) .shutdown :: List.replicate 6 (.step (.client 2)) ++
        [.call .worker .shutdown])).map
      (fun s => decide (s.call .worker = .shutdownLock) && decide (s.call (.client 2) = .join)) =
        some true := by
    decide +kernel
  obtain ⟨s, hs, hp⟩ := System.exists_of_run _ hrun
  simp only [Bool.and_eq_true, decide_eq_true_eq] at hp
  exact State.not_acyclic (State.valid hs) hp.1 hp.2 (h s hs).acyclic

end Vosp
