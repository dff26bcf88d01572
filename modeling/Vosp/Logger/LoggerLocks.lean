import Vosp.Logger.AsyncLoggerStep

/-!
This module contains the mutexes that a thread of the asynchronous logger holds at a program point, and the
proof that they agree with the owners in the memory in every reachable state.
-/

namespace Vosp.AsyncLogger

def CallPc.holds (pc : CallPc) (mutex : Mutex) : Bool :=
  match mutex with
  | .queue =>
    match pc with
    | .writeTest _ | .writeCheck _ | .writeNotify _ | .writeUnlock _ _ | .flushTest | .flushUnlock
    | .stop | .notifyRecords | .notifySpace | .stopUnlock => true
    | _ => false
  | .shutdown =>
    match pc with
    | .stopLock | .stop | .notifyRecords | .notifySpace | .stopUnlock | .join | .shutdownUnlock => true
    | _ => false

def WorkerPc.holds (pc : WorkerPc) (mutex : Mutex) : Bool :=
  match mutex with
  | .queue =>
    match pc with
    | .test | .decide | .exitNotify | .exitUnlock | .notifySpace _ | .unlockBatch _ | .drain
    | .notifyDrained | .unlock => true
    | _ => false
  | .shutdown => false

def Op.acquires (op : Op) : Option Mutex :=
  match op with
  | .acquire mutex => some mutex
  | _ => none

def Op.releases (op : Op) : Option Mutex :=
  match op with
  | .release mutex => some mutex
  | .sleep _ => some .queue
  | _ => none

namespace Op

variable {op : Op} {t : Thread} {m : Memory} {mutex : Mutex}

theorem owner_of_acquires (h : op.acquires = some mutex)
    : (op.apply t m).owner = Function.update m.owner mutex (some t) := by
  cases op <;> cases h
  rfl

theorem owner_of_releases (h : op.releases = some mutex)
    : (op.apply t m).owner = Function.update m.owner mutex none := by
  cases op <;> cases h <;> rfl

theorem owner_frame (h : op.acquires = none) (h' : op.releases = none) : (op.apply t m).owner = m.owner := by
  cases op
  case acquire => cases h
  case release | sleep => cases h'
  all_goals rfl

end Op

structure LockEdge (m : Memory) (op : Op) (before after : Mutex → Bool) : Prop where
  acquire : ∀ mutex, op.acquires = some mutex →
    m.owner mutex = none ∧ ∀ b, after b = (before b || decide (b = mutex))
  release : ∀ mutex, op.releases = some mutex →
    before mutex = true ∧ ∀ b, after b = (before b && decide (b ≠ mutex))
  frame : op.acquires = none → op.releases = none → after = before

theorem CallEdge.locks {policy : LoggerPolicy} {exited : Prop} {t : Thread} {m : Memory} {pc pc' : CallPc} {op : Op}
    (h : CallEdge policy exited t m pc op pc')
    : LockEdge m op pc.holds pc'.holds := by
  cases h
  case writeLock hfree | flushLock hfree | shutdownLock hfree | stopLock hfree =>
    constructor
    case acquire =>
      intro mutex hmutex
      cases hmutex
      exact ⟨hfree, fun b => by cases b <;> rfl⟩
    all_goals nofun
  case writeSleep | flushSleep | writeUnlock | flushUnlock | stopUnlock | shutdownUnlock =>
    constructor
    case release =>
      intro mutex hmutex
      cases hmutex
      exact ⟨rfl, fun b => by cases b <;> rfl⟩
    all_goals nofun
  all_goals
    constructor
    case frame => exact fun _ _ => funext fun b => by cases b <;> rfl
    all_goals nofun

theorem WorkerEdge.locks {m : Memory} {pc pc' : WorkerPc} {op : Op} (h : WorkerEdge m pc op pc')
    : LockEdge m op pc.holds pc'.holds := by
  cases h
  case lock hfree | relock hfree =>
    constructor
    case acquire =>
      intro mutex hmutex
      cases hmutex
      exact ⟨hfree, fun b => by cases b <;> rfl⟩
    all_goals nofun
  case sleep | exit | unlockBatch | unlock =>
    constructor
    case release =>
      intro mutex hmutex
      cases hmutex
      exact ⟨rfl, fun b => by cases b <;> rfl⟩
    all_goals nofun
  all_goals
    constructor
    case frame => exact fun _ _ => funext fun b => by cases b <;> rfl
    all_goals nofun

namespace State

variable {policy : LoggerPolicy} {metadata : LoggerMetadataPolicy} {s s' : State} {event : Event} {t u : Thread}

def Nested (s : State) : Prop := s.call .worker ≠ .idle → s.worker.inCallback = true

theorem call_ne_idle {op : Op} {pc : CallPc} (h : CallEdge policy (s.worker = .exited) t s.memory (s.call t) op pc)
    : s.call t ≠ .idle := by
  intro hidle
  rw [hidle] at h
  cases h

theorem not_inCallback {op : Op} {pc : WorkerPc} (h : WorkerEdge s.memory s.worker op pc)
    : s.worker.inCallback = false := by
  revert h
  generalize s.worker = before
  intro h
  cases h <;> rfl

theorem startCall_worker (s : State) (t : Thread) (request : Request) : (s.startCall t request).worker = s.worker := by
  cases request <;> rfl

theorem startCall_call_of_ne {request : Request} (h : u ≠ t) : (s.startCall t request).call u = s.call u := by
  cases request <;> exact Function.update_of_ne h _ _

theorem Nested.step (h : s.Nested) (hstep : Step policy metadata s event s') : s'.Nested := by
  cases hstep with
  | @start t request hidle hworker =>
    intro hcall
    rw [startCall_worker]
    by_cases ht : t = .worker
    . exact hworker ht
    . rw [startCall_call_of_ne (Ne.symm ht)] at hcall
      exact h hcall
  | @call t op pc hedge =>
    intro hcall
    by_cases ht : t = .worker
    . subst ht
      exact h (call_ne_idle hedge)
    . simp only [setCall, Function.update_of_ne (Ne.symm ht)] at hcall
      exact h hcall
  | work hedge =>
    intro hcall
    have hcallback := h hcall
    rw [not_inCallback hedge] at hcallback
    cases hcallback
  | filtered hworker | hand hworker | unattached hworker =>
    intro hcall
    have hcallback := h hcall
    rw [hworker] at hcallback
    cases hcallback
  | finish hworker hidle => exact fun hcall => absurd hidle hcall
  | spurious => exact h

theorem Nested.idle (h : s.Nested) (hworker : s.worker.inCallback = false) : s.call .worker = .idle := by
  by_contra hcall
  rw [h hcall] at hworker
  cases hworker

def holds (s : State) (t : Thread) (mutex : Mutex) : Bool :=
  (s.call t).holds mutex || (decide (t = .worker) && s.worker.holds mutex)

theorem idle_holds (mutex : Mutex) : CallPc.idle.holds mutex = false := by
  cases mutex <;> rfl

theorem inCallback_holds {pc : WorkerPc} (h : pc.inCallback = true) (mutex : Mutex) : pc.holds mutex = false := by
  cases pc
  case callback => cases mutex <;> rfl
  all_goals cases h

theorem holds_of_call (h : s.Nested) (hcall : s.call t ≠ .idle) (mutex : Mutex)
    : s.holds t mutex = (s.call t).holds mutex := by
  unfold holds
  by_cases ht : t = .worker
  . subst ht
    rw [inCallback_holds (h hcall), Bool.and_false, Bool.or_false]
  . rw [decide_eq_false ht, Bool.false_and, Bool.or_false]

theorem holds_of_work (h : s.Nested) (hworker : s.worker.inCallback = false) (mutex : Mutex)
    : s.holds .worker mutex = s.worker.holds mutex := by
  unfold holds
  rw [h.idle hworker, idle_holds, decide_eq_true rfl, Bool.true_and, Bool.false_or]

def Owned (s : State) : Prop := Mutex.Owned s.holds s.memory.owner

theorem Owned.edge (h : s.Owned) {m : Memory} {op : Op} (hmemory : m = op.apply t s.memory)
    (hlocks : LockEdge s.memory op (s.holds t) (s'.holds t)) (hs' : s'.memory = m)
    (hu : ∀ u, u ≠ t → s'.holds u = s.holds u)
    : s'.Owned := by
  unfold Owned
  rw [hs', hmemory]
  cases hacquires : op.acquires with
  | some mutex =>
    obtain ⟨hfree, hafter⟩ := hlocks.acquire mutex hacquires
    rw [Op.owner_of_acquires hacquires]
    exact Mutex.Owned.lock h hfree hafter hu
  | none =>
    cases hreleases : op.releases with
    | some mutex =>
      obtain ⟨hheld, hafter⟩ := hlocks.release mutex hreleases
      rw [Op.owner_of_releases hreleases]
      exact Mutex.Owned.unlock h hheld hafter hu
    | none =>
      rw [Op.owner_frame hacquires hreleases]
      apply Mutex.Owned.frame h
      intro u
      by_cases hut : u = t
      . rw [hut, hlocks.frame hacquires hreleases]
      . exact hu u hut

theorem Owned.same (h : s.Owned) (howner : s'.memory.owner = s.memory.owner) (hcall : s'.call = s.call)
    (hworker : ∀ mutex, s'.worker.holds mutex = s.worker.holds mutex)
    : s'.Owned := by
  unfold Owned
  rw [howner]
  apply Mutex.Owned.frame h
  intro u
  funext mutex
  simp only [holds, hcall, hworker]

theorem Owned.step (h : s.Owned) (hn : s.Nested) (hstep : Step policy metadata s event s') : s'.Owned := by
  cases hstep with
  | @start t request hidle hworker =>
    have howner : (s.startCall t request).memory.owner = s.memory.owner := by cases request <;> rfl
    unfold Owned
    rw [howner]
    apply Mutex.Owned.frame h
    intro u
    funext mutex
    by_cases hut : u = t
    . subst hut
      simp only [holds, startCall_worker, hidle, idle_holds]
      cases request <;> cases mutex <;> simp [startCall, setCall, CallPc.holds]
    . simp only [holds, startCall_worker, startCall_call_of_ne hut]
  | @call t op pc hedge =>
    have hbefore := funext (holds_of_call hn (call_ne_idle hedge))
    have hself : (({ s with memory := op.apply t s.memory } : State).setCall t pc).holds t = pc.holds := by
      funext mutex
      simp only [holds, setCall, Function.update_self]
      by_cases ht : t = .worker
      . subst ht
        rw [inCallback_holds (hn (call_ne_idle hedge)), Bool.and_false, Bool.or_false]
      . rw [decide_eq_false ht, Bool.false_and, Bool.or_false]
    apply h.edge rfl _ rfl
    . intro u hut
      funext mutex
      simp only [holds, setCall, Function.update_of_ne hut]
    . rw [hbefore, hself]
      exact hedge.locks
  | @work op pc hedge =>
    have hidle := hn.idle (not_inCallback hedge)
    have hbefore := funext (holds_of_work hn (not_inCallback hedge))
    apply h.edge (t := .worker) rfl _ rfl
    . intro u hut
      funext mutex
      simp only [holds, decide_eq_false hut, Bool.false_and]
    . rw [hbefore]
      have hself : ({ s with memory := op.apply .worker s.memory, worker := pc } : State).holds .worker = pc.holds := by
        funext mutex
        simp only [holds, hidle, idle_holds, decide_true, Bool.true_and, Bool.false_or]
      rw [hself]
      exact hedge.locks
  | filtered hworker | hand hworker | unattached hworker =>
    refine h.same rfl rfl ?_
    intro mutex
    rw [hworker]
    cases mutex <;> rfl
  | finish hworker =>
    refine h.same rfl rfl ?_
    intro mutex
    rw [hworker]
    split <;> cases mutex <;> rfl
  | spurious => exact h.same rfl rfl (fun _ => rfl)

theorem Owned.unique (h : s.Owned) {mutex : Mutex} (ht : s.holds t mutex = true) (hu : s.holds u mutex = true)
    : t = u :=
  Mutex.Owned.unique h ht hu

end State

end Vosp.AsyncLogger
