import Vosp.Lib.Termination
import Vosp.Logger.LoggerDeadlock
import Vosp.Logger.LoggerFlush

/-!
This module says when the asynchronous logger comes to a halt: when everything that was accepted has been
delivered and no call is left, or when a callback has called the logger and waits for its own worker.
-/

namespace Vosp.AsyncLogger

def Event.advances (event : Event) : Bool :=
  match event with
  | .call _ _ | .spurious _ _ => false
  | .step _ | .work | .backend _ _ | .finish _ => true

inductive CallPc.Stays (m : Memory) (exited : Bool) (t : Thread) : CallPc → Prop where
  | idle : Stays m exited t .idle
  | writeSleep {record : LogRecord} (hasleep : m.asleep .space t = true) : Stays m exited t (.writeSleep record)
  | flushSleep (hasleep : m.asleep .drained t = true) : Stays m exited t .flushSleep
  | queue (hblocks : CallPc.Blocks pc (.mutex .queue)) (hheld : m.owner .queue ≠ none) : Stays m exited t pc
  | shutdown (hheld : m.owner .shutdown ≠ none) : Stays m exited t .shutdownLock
  | join (hjoined : m.joined = false) (hclient : t ≠ .worker) (hexited : exited = false) : Stays m exited t .join

inductive WorkerPc.Stays (m : Memory) : WorkerPc → Prop where
  | queue (hwants : WorkerPc.wants pc = some (.mutex .queue)) (hheld : m.owner .queue ≠ none) : Stays m pc
  | sleep (hasleep : m.asleep .records .worker = true) : Stays m .sleep
  | exited : Stays m .exited
  | deliver {record : LogRecord} {batch : List LogRecord} : Stays m (.deliver (record :: batch))
  | callback {record : LogRecord} {batch : List LogRecord} : Stays m (.callback record batch)

theorem acquire_eq_none {m : Memory} {mutex : Mutex} {t : Thread} (h : m.acquire mutex t = none)
    : m.owner mutex ≠ none := by
  unfold Memory.acquire at h
  split at h
  . cases h
  . next hheld => exact hheld

theorem CallPc.stays {policy : LoggerPolicy} {m : Memory} {exited : Bool} {t : Thread} {pc : CallPc}
    (h : CallPc.step policy m exited t pc = none)
    : pc.Stays m exited t := by
  cases pc <;> simp only [CallPc.step] at h
  case idle => exact .idle
  case writeLock | flushLock | stopLock =>
    exact .queue (by constructor) (acquire_eq_none (Option.map_eq_none_iff.mp h))
  case shutdownLock => exact .shutdown (acquire_eq_none (Option.map_eq_none_iff.mp h))
  case writeSleep =>
    split at h
    . next hasleep => exact .writeSleep hasleep
    . cases h
  case flushSleep =>
    split at h
    . next hasleep => exact .flushSleep hasleep
    . cases h
  case join =>
    split at h
    . cases h
    . next hskip =>
      split at h
      . cases h
      . next hexited =>
        rw [not_or, Bool.not_eq_true] at hskip
        exact .join hskip.1 hskip.2 (Bool.not_eq_true _ ▸ hexited)
  case writeTest | writeCheck | flushTest => split at h <;> cases h
  all_goals cases h

theorem WorkerPc.stays {m : Memory} {pc : WorkerPc} (h : WorkerPc.step m pc = none) : pc.Stays m := by
  cases pc <;> simp only [WorkerPc.step] at h
  case lock | relock => exact .queue rfl (acquire_eq_none (Option.map_eq_none_iff.mp h))
  case sleep =>
    split at h
    . next hasleep => exact .sleep hasleep
    . cases h
  case exited => exact .exited
  case callback => exact .callback
  case deliver batch =>
    cases batch with
    | nil => cases h
    | cons => exact .deliver
  case test | decide => split at h <;> cases h
  all_goals cases h

theorem CallPc.Stays.not_holds {m : Memory} {exited : Bool} {t : Thread} {pc : CallPc} (h : pc.Stays m exited t)
    : pc.holds .queue = false := by
  cases h with
  | queue hblocks => cases hblocks <;> rfl
  | _ => rfl

theorem WorkerPc.Stays.not_holds {m : Memory} {pc : WorkerPc} (h : pc.Stays m) : pc.holds .queue = false := by
  cases h with
  | queue hwants => exact (WorkerPc.wants_eq hwants).2 .queue
  | _ => rfl

def CallPc.stopped (pc : CallPc) : Bool :=
  match pc with
  | .notifyRecords | .notifySpace | .stopUnlock | .join => true
  | _ => false

theorem CallEdge.stopped {policy : LoggerPolicy} {exited : Prop} {t : Thread} {m : Memory} {pc pc' : CallPc} {op : Op}
    (h : CallEdge policy exited t m pc op pc') (hstopped : pc'.stopped = true)
    : pc.stopped = true ∨ op = .stop := by
  cases h
  case stop => exact .inr rfl
  case notifyRecords | notifySpace | stopUnlock => exact .inl rfl
  all_goals cases hstopped

theorem Op.stopping_apply {op : Op} {t : Thread} {m : Memory} (h : m.stopping = true)
    : (op.apply t m).stopping = true := by
  cases op
  case stop => rfl
  all_goals exact h

namespace State

variable {policy : LoggerPolicy} {metadata : LoggerMetadataPolicy} {s s' : State} {event : Event} {t u : Thread}

def Stopped (s : State) : Prop := ∀ t, (s.call t).stopped = true → s.memory.stopping = true

theorem Stopped.step (h : s.Stopped) (hstep : Step policy metadata s event s') : s'.Stopped := by
  intro u hu
  cases hstep with
  | @start t request hidle hworker =>
    by_cases hut : u = t
    . subst hut
      cases request <;> simp [startCall, setCall, CallPc.stopped] at hu
    . rw [startCall_call_of_ne hut] at hu
      have hstopping := h u hu
      cases request <;> exact hstopping
  | @call t op pc hedge =>
    by_cases hut : u = t
    . subst hut
      simp only [setCall, Function.update_self] at hu
      rcases hedge.stopped hu with hbefore | rfl
      . exact Op.stopping_apply (h u hbefore)
      . rfl
    . simp only [setCall, Function.update_of_ne hut] at hu
      exact Op.stopping_apply (h u hu)
  | work => exact Op.stopping_apply (h u hu)
  | _ => exact h u hu

theorem stopped (hs : (system policy metadata).Reachable s) : s.Stopped := by
  apply System.ReachableVia.invariant _ _ hs
  . nofun
  . exact fun _ _ _ _ h _ hstep => h.step (step_cases hstep)

def Halted (policy : LoggerPolicy) (metadata : LoggerMetadataPolicy) (s : State) : Prop :=
  (system policy metadata).Halted Event.advances s

structure AtRest (s : State) : Prop where
  call : ∀ t, s.call t = .idle
  worker : s.worker = .exited ∨ s.worker = .sleep ∧ s.memory.asleep .records .worker = true
  finished : s.memory.history.accepted = s.memory.history.finished.map Prod.fst
  failed : s.memory.failedRecords = failures s.memory.history.finished

/--
A callback on the worker waits for what only the worker can bring about.
-/
inductive Hangs (s : State) : Prop where
  | flush (hcall : s.call .worker = .flushSleep)
  | write (hcall : s.call .worker = .writeSleep record) (hstopping : s.memory.stopping = false)
    (hfull : queueCapacity ≤ s.memory.queue.length)
  | shutdown (hcall : s.call .worker = .shutdownLock) (hjoin : s.call (.client name) = .join)

namespace Halted

variable (h : s.Halted policy metadata)

include h

theorem call (t : Thread) : (s.call t).Stays s.memory (s.worker = .exited) t :=
  CallPc.stays (Option.map_eq_none_iff.mp (h (.step t) rfl))

theorem work : s.worker.Stays s.memory :=
  WorkerPc.stays (Option.map_eq_none_iff.mp (h .work rfl))

theorem owner_queue (hv : s.Valid policy) : s.memory.owner .queue = none := by
  cases howner : s.memory.owner .queue with
  | none => rfl
  | some u =>
    have hholds := (hv.owned u .queue).mpr howner
    rw [holds, (h.call u).not_holds, h.work.not_holds, Bool.and_false, Bool.or_false] at hholds
    cases hholds

theorem call_cases (hv : s.Valid policy) (t : Thread)
    : s.call t = .idle ∨ (∃ record, s.call t = .writeSleep record ∧ s.memory.asleep .space t = true) ∨
        (s.call t = .flushSleep ∧ s.memory.asleep .drained t = true) ∨
        (s.call t = .shutdownLock ∧ s.memory.owner .shutdown ≠ none) ∨
        s.call t = .join ∧ t ≠ .worker ∧ s.worker ≠ .exited := by
  have hstays := h.call t
  generalize s.call t = pc at hstays
  cases hstays with
  | idle => exact .inl rfl
  | writeSleep hasleep => exact .inr (.inl ⟨_, rfl, hasleep⟩)
  | flushSleep hasleep => exact .inr (.inr (.inl ⟨rfl, hasleep⟩))
  | queue hblocks hheld => exact absurd (h.owner_queue hv) hheld
  | shutdown hheld => exact .inr (.inr (.inr (.inl ⟨rfl, hheld⟩)))
  | join hjoined hclient hexited => exact .inr (.inr (.inr (.inr ⟨rfl, hclient, of_decide_eq_false hexited⟩)))

theorem joins_of_owner (hv : s.Valid policy) (howner : s.memory.owner .shutdown = some u)
    : s.call u = .join ∧ u ≠ .worker ∧ s.worker ≠ .exited := by
  have hholds := (hv.owned u .shutdown).mpr howner
  have hworker : s.worker.holds .shutdown = false := rfl
  rw [holds, hworker, Bool.and_false, Bool.or_false] at hholds
  rcases h.call_cases hv u with hcall | ⟨_, hcall, -⟩ | ⟨hcall, -⟩ | ⟨hcall, -⟩ | hjoin
  . rw [hcall] at hholds
    cases hholds
  . rw [hcall] at hholds
    cases hholds
  . rw [hcall] at hholds
    cases hholds
  . rw [hcall] at hholds
    cases hholds
  . exact hjoin

theorem blocks (hv : s.Valid policy) (hawaited : s.Awaited) {condition : Condition}
    (hasleep : s.memory.asleep condition t = true)
    : s.memory.Blocks condition := by
  apply hawaited.blocks _ hasleep
  intro u
  rw [← Bool.not_eq_true]
  intro hnotifies
  have howner := (hv.owned u .queue).mp (holds_of_notifies hnotifies)
  rw [h.owner_queue hv] at howner
  cases howner

theorem worker_cases (hv : s.Valid policy)
    : s.worker = .exited ∨ (s.worker = .sleep ∧ s.memory.asleep .records .worker = true) ∨
        ∃ record batch, s.worker = .callback record batch := by
  have hstays := h.work
  generalize hworker : s.worker = pc at hstays
  cases hstays with
  | queue hwants hheld => exact absurd (h.owner_queue hv) hheld
  | sleep hasleep => exact .inr (.inl ⟨rfl, hasleep⟩)
  | exited => exact .inl rfl
  | @deliver record batch =>
    have hbackend : s.step policy metadata (.backend 0 true) = none := h (.backend 0 true) rfl
    simp only [step, stepBackend, hworker] at hbackend
    split at hbackend <;> cases hbackend
  | callback => exact .inr (.inr ⟨_, _, rfl⟩)

theorem calls_idle (hv : s.Valid policy) (hawaited : s.Awaited) (hqueue : s.memory.queue = [])
    (hbatch : s.memory.batchActive = false) (hjoin : ∀ t, s.call t ≠ .join)
    : ∀ t, s.call t = .idle := by
  intro t
  rcases h.call_cases hv t with hcall | ⟨record, -, hasleep⟩ | ⟨-, hasleep⟩ | ⟨-, hheld⟩ | ⟨hcall, -⟩
  . exact hcall
  . have hfull := (h.blocks hv hawaited hasleep).2
    rw [hqueue] at hfull
    exact absurd hfull (Nat.not_succ_le_zero 1023)
  . rcases h.blocks hv hawaited hasleep with hne | hactive
    . exact absurd hqueue hne
    . rw [hbatch] at hactive
      cases hactive
  . obtain ⟨u, howner⟩ := Option.ne_none_iff_exists'.mp hheld
    exact absurd (h.joins_of_owner hv howner).1 (hjoin u)
  . exact absurd hcall (hjoin t)

theorem atRest_or_hangs (hs : (system policy metadata).Reachable s) : s.AtRest ∨ s.Hangs := by
  have hv := valid hs
  have hawaited := (flushing hs).awaited
  have hfailed := hv.ledger.failed
  rcases h.worker_cases hv with hworker | ⟨hworker, hasleep⟩ | ⟨record, batch, hworker⟩
  . have hqueue := (hv.ledger.exiting (by rw [hworker]; rfl)).2
    have hbatch : s.memory.batchActive = false := by rw [hv.ledger.active, hworker]; rfl
    rw [hworker] at hfailed
    have hjoin : ∀ t, s.call t ≠ .join := by
      intro t hcall
      have hstays := h.call t
      rw [hcall] at hstays
      cases hstays with
      | queue hblocks => cases hblocks
      | join _ _ hexited => exact absurd hworker (of_decide_eq_false hexited)
    exact .inl ⟨h.calls_idle hv hawaited hqueue hbatch hjoin, .inl hworker,
      hv.ledger.finished_of_drained hqueue hbatch, hfailed⟩
  . obtain ⟨hstopping, hqueue⟩ := h.blocks hv hawaited hasleep
    have hbatch : s.memory.batchActive = false := by rw [hv.ledger.active, hworker]; rfl
    rw [hworker] at hfailed
    have hjoin : ∀ t, s.call t ≠ .join := by
      intro t hcall
      have hstop := stopped hs t (by rw [hcall]; rfl)
      rw [hstopping] at hstop
      cases hstop
    exact .inl ⟨h.calls_idle hv hawaited hqueue hbatch hjoin, .inr ⟨hworker, hasleep⟩,
      hv.ledger.finished_of_drained hqueue hbatch, hfailed⟩
  . right
    rcases h.call_cases hv .worker with hcall | ⟨record, hcall, hasleep⟩ | ⟨hcall, -⟩ | ⟨hcall, hheld⟩ | ⟨-, hne, -⟩
    . have hfinish : s.step policy metadata (.finish .thrown) = none := h (.finish .thrown) rfl
      simp only [step, stepFinish, hworker, hcall] at hfinish
      cases hfinish
    . obtain ⟨hstopping, hfull⟩ := h.blocks hv hawaited hasleep
      exact .write hcall hstopping hfull
    . exact .flush hcall
    . obtain ⟨u, howner⟩ := Option.ne_none_iff_exists'.mp hheld
      obtain ⟨hjoin, hne, -⟩ := h.joins_of_owner hv howner
      cases u with
      | worker => exact absurd rfl hne
      | client name => exact .shutdown hcall hjoin
    . exact absurd rfl hne

end Halted

theorem AtRest.halted (h : s.AtRest) : s.Halted policy metadata := by
  intro event hadvances
  show s.step policy metadata event = none
  cases event with
  | call => cases hadvances
  | spurious => cases hadvances
  | step t => simp only [step, h.call t, CallPc.step, Option.map_none]
  | work =>
    rcases h.worker with hworker | ⟨hworker, hasleep⟩
    . simp only [step, hworker, WorkerPc.step, Option.map_none]
    . simp only [step, hworker, WorkerPc.step, hasleep, ↓reduceIte, Option.map_none]
  | backend now attached => rcases h.worker with hworker | ⟨hworker, -⟩ <;> simp only [step, stepBackend, hworker]
  | finish outcome => rcases h.worker with hworker | ⟨hworker, -⟩ <;> simp only [step, stepFinish, hworker]

theorem Step.worker_eq (hn : s.Nested) (hcall : s.call .worker ≠ .idle) (hstep : Step policy metadata s event s')
    : s'.worker = s.worker := by
  have hinside := hn hcall
  cases hstep with
  | start => exact startCall_worker _ _ _
  | work hedge =>
    rw [not_inCallback hedge] at hinside
    cases hinside
  | filtered hworker | hand hworker | unattached hworker =>
    rw [hworker] at hinside
    cases hinside
  | finish _ hidle => exact absurd hidle hcall
  | _ => rfl

theorem Step.call_cases (hcall : s.call t ≠ .idle) (hstep : Step policy metadata s event s')
    : s'.call t = s.call t ∨
        ∃ op, CallEdge policy (s.worker = .exited) t s.memory (s.call t) op (s'.call t) ∧
          s'.memory = op.apply t s.memory := by
  cases hstep with
  | @start u request hidle hworker =>
    have hne : t ≠ u := fun heq => hcall (heq ▸ hidle)
    exact .inl (startCall_call_of_ne hne)
  | @call u op pc hedge =>
    by_cases htu : t = u
    . subst htu
      right
      simp only [setCall, Function.update_self]
      exact ⟨op, hedge, rfl⟩
    . exact .inl (Function.update_of_ne htu _ _)
  | _ => exact .inl rfl

end State

def CallPc.flushing (pc : CallPc) : Bool :=
  match pc with
  | .flushLock | .flushTest | .flushSleep => true
  | _ => false

def CallPc.awaitsSpace (pc : CallPc) : Bool :=
  match pc with
  | .writeLock _ | .writeTest _ | .writeSleep _ => true
  | _ => false

namespace State

variable {policy : LoggerPolicy} {metadata : LoggerMetadataPolicy} {s s' : State} {event : Event}

def Hung (s : State) : Prop :=
  (s.call .worker).flushing = true ∨ s.call .worker = .shutdownLock ∧ ∃ name, s.call (.client name) = .join

def AwaitsSpace (s : State) : Prop :=
  (s.call .worker).awaitsSpace = true ∧ queueCapacity ≤ s.memory.queue.length

theorem Hung.call_ne_idle (h : s.Hung) : s.call .worker ≠ .idle := by
  intro hidle
  rcases h with hflushing | ⟨hcall, -⟩
  . rw [hidle] at hflushing
    cases hflushing
  . rw [hidle] at hcall
    cases hcall

theorem Hung.step (h : s.Hung) (hv : s.Valid policy) (hstep : Step policy metadata s event s') : s'.Hung := by
  have hinside := hv.nested h.call_ne_idle
  have hbatch : s.memory.batchActive = true := by
    rw [hv.ledger.active]
    generalize s.worker = pc at hinside
    cases pc
    case callback => rfl
    all_goals cases hinside
  have hexited : s.worker ≠ .exited := by
    intro hexited
    rw [hexited] at hinside
    cases hinside
  rcases h with hflushing | ⟨hcallback, name, hjoin⟩
  . left
    have hidle : s.call .worker ≠ .idle := by
      intro hidle
      rw [hidle] at hflushing
      cases hflushing
    rcases hstep.call_cases hidle with hsame | ⟨op, hedge, -⟩
    . rw [hsame]
      exact hflushing
    . generalize s.call .worker = pc at hedge hflushing
      generalize s'.call .worker = pc' at hedge
      cases hedge
      case flushTest hdrained =>
        rw [hbatch] at hdrained
        cases hdrained
      case flushLock | flushSleep | flushWake => rfl
      all_goals cases hflushing
  . right
    constructor
    . rcases hstep.call_cases (t := .worker) (by rw [hcallback]; exact CallPc.noConfusion) with hsame | ⟨op, hedge, -⟩
      . rw [hsame, hcallback]
      . rw [hcallback] at hedge
        generalize s'.call .worker = pc' at hedge
        cases hedge with
        | shutdownLock hfree =>
          rw [owner_of_join hv hjoin] at hfree
          cases hfree
    . refine ⟨name, ?_⟩
      rcases hstep.call_cases (t := .client name) (by rw [hjoin]; exact CallPc.noConfusion) with hsame | ⟨op, hedge, -⟩
      . rw [hsame, hjoin]
      . rw [hjoin] at hedge
        generalize s'.call (.client name) = pc' at hedge
        cases hedge with
        | skipJoin hskip =>
          rcases hskip with hjoined | hself
          . exact absurd (hv.ledger.joined hjoined) hexited
          . cases hself
        | join hexit => exact absurd hexit hexited

theorem Step.stopping (hstep : Step policy metadata s event s') (hstopping : s'.memory.stopping = false)
    : s.memory.stopping = false := by
  rw [← Bool.not_eq_true] at hstopping ⊢
  intro hbefore
  apply hstopping
  cases hstep with
  | @start t request => cases request <;> exact hbefore
  | call | work => exact Op.stopping_apply hbefore
  | _ => exact hbefore

theorem Step.queue_length_le (hstep : Step policy metadata s event s') (hinside : s.worker.inCallback = true)
    : s.memory.queue.length ≤ s'.memory.queue.length := by
  cases hstep with
  | @start t request => cases request <;> exact Nat.le_refl _
  | @call t op pc hedge =>
    generalize s.call t = before at hedge
    cases hedge
    case push => exact List.length_append ▸ Nat.le_add_right _ _
    all_goals exact Nat.le_refl _
  | work hedge =>
    rw [not_inCallback hedge] at hinside
    cases hinside
  | _ => exact Nat.le_refl _

theorem AwaitsSpace.call_ne_idle (h : s.AwaitsSpace) : s.call .worker ≠ .idle := by
  intro hidle
  have hwaits := h.1
  rw [hidle] at hwaits
  cases hwaits

theorem AwaitsSpace.step (h : s.AwaitsSpace) (hv : s.Valid policy) (hstep : Step policy metadata s event s')
    (hstopping : s'.memory.stopping = false)
    : s'.AwaitsSpace := by
  have hinside := hv.nested h.call_ne_idle
  have hbefore := hstep.stopping hstopping
  obtain ⟨hwaits, hfull⟩ := h
  refine ⟨?_, Nat.le_trans hfull (hstep.queue_length_le hinside)⟩
  rcases hstep.call_cases (AwaitsSpace.call_ne_idle ⟨hwaits, hfull⟩) with hsame | ⟨op, hedge, -⟩
  . rw [hsame]
    exact hwaits
  . generalize s.call .worker = pc at hedge hwaits
    generalize s'.call .worker = pc' at hedge
    cases hedge
    case writeTest hroom =>
      rcases hroom with hstop | hlt
      . rw [hbefore] at hstop
        cases hstop
      . exact absurd hfull (Nat.not_le.mpr hlt)
    case writeLock | writeSleep | writeWake => rfl
    all_goals cases hwaits

structure HaltContract (policy : LoggerPolicy) (metadata : LoggerMetadataPolicy) (s : State) : Prop where
  halted : s.Halted policy metadata → s.AtRest ∨ s.Hangs
  atRest : s.AtRest → s.Halted policy metadata
  hung : s.Hung → ∀ events s', (system policy metadata).run s events = some s' →
    s'.Hung ∧ s'.worker = s.worker
  space : s.AwaitsSpace → ∀ events s', (system policy metadata).run s events = some s' →
    s'.memory.stopping = false → s'.AwaitsSpace ∧ s'.worker = s.worker

end State

end Vosp.AsyncLogger

namespace Vosp

open AsyncLogger

theorem async_logger_halts {policy : LoggerPolicy} {metadata : LoggerMetadataPolicy} {s : AsyncLogger.State}
    (hs : (AsyncLogger.system policy metadata).Reachable s)
    : s.HaltContract policy metadata := by
  constructor
  case halted => exact fun hhalted => hhalted.atRest_or_hangs hs
  case atRest => exact State.AtRest.halted
  case hung =>
    intro hhung events s' hrun
    apply hs.run_invariant (I := fun s' => s'.Hung ∧ s'.worker = s.worker) _ ⟨hhung, rfl⟩ events hrun
    rintro s₁ event s₂ hs₁ ⟨hhung, hworker⟩ hstep
    have hv := State.valid hs₁
    have hcases := State.step_cases hstep
    exact ⟨hhung.step hv hcases, (hcases.worker_eq hv.nested hhung.call_ne_idle).trans hworker⟩
  case space =>
    intro hspace events s' hrun
    apply hs.run_invariant
      (I := fun s' => s'.memory.stopping = false → s'.AwaitsSpace ∧ s'.worker = s.worker) _ _ events hrun
    . intro s₁ event s₂ hs₁ hbefore hstep hstopping
      have hv := State.valid hs₁
      have hcases := State.step_cases hstep
      obtain ⟨hspace, hworker⟩ := hbefore (hcases.stopping hstopping)
      exact ⟨hspace.step hv hcases hstopping, (hcases.worker_eq hv.nested hspace.call_ne_idle).trans hworker⟩
    . exact fun _ => ⟨hspace, rfl⟩

theorem async_logger_halts_hung
    : ∃ s : AsyncLogger.State, s.call .worker = .flushSleep ∧ s.Hung ∧
        s.HaltContract acceptAllPolicy fullMetadataPolicy := by
  have hrun : ((AsyncLogger.system acceptAllPolicy fullMetadataPolicy).run .init
      (sampleCallback ++ .call .worker .flush :: List.replicate 2 (.step .worker))).map
      (fun s => decide (s.call .worker = .flushSleep)) = some true := by
    decide +kernel
  obtain ⟨s, hs, hp⟩ := System.exists_of_run _ hrun
  rw [decide_eq_true_eq] at hp
  exact ⟨s, hp, .inl (by rw [hp]; rfl), async_logger_halts hs⟩

end Vosp
