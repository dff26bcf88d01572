import Vosp.Logger.LoggerDelivery

/-!
This module contains the threads that sleep on the condition variables of the asynchronous logger: each has
something to wait for, or the thread that has changed this still holds the mutex and is about to notify. It
also says what a `flush` that returns has waited for.
-/

namespace Vosp.AsyncLogger

def Memory.Blocks (m : Memory) (condition : Condition) : Prop :=
  match condition with
  | .records => m.stopping = false ∧ m.queue = []
  | .space => m.stopping = false ∧ queueCapacity ≤ m.queue.length
  | .drained => m.queue ≠ [] ∨ m.batchActive = true

def CallPc.notifies (pc : CallPc) (condition : Condition) : Bool :=
  match pc, condition with
  | .writeNotify _, .records | .notifyRecords, .records | .notifyRecords, .space | .notifySpace, .space => true
  | _, _ => false

def WorkerPc.notifies (pc : WorkerPc) (condition : Condition) : Bool :=
  match pc, condition with
  | .notifySpace _, .space | .notifyDrained, .drained => true
  | _, _ => false

def CallPc.flushes (pc : CallPc) : Bool :=
  match pc with
  | .flushUnlock | .flushed => true
  | _ => false

structure WakeEdge (m m' : Memory) (before after : Condition → Bool) : Prop where
  asleep : ∀ condition u, m'.asleep condition u = true → m.asleep condition u = true ∨ m'.Blocks condition
  blocks : ∀ condition, m.Blocks condition → m'.Blocks condition ∨ after condition = true
  notifies : ∀ condition, before condition = true →
    after condition = true ∨ m'.Blocks condition ∨ ∀ u, m'.asleep condition u = false

namespace WakeEdge

variable {m m' : Memory} {before after : Condition → Bool} {condition : Condition}

theorem frame (hstopping : m'.stopping = m.stopping) (hqueue : m'.queue = m.queue)
    (hbatch : m'.batchActive = m.batchActive)
    (hasleep : ∀ condition u, m'.asleep condition u = true → m.asleep condition u = true)
    (hnotifies : ∀ condition, before condition = true → after condition = true)
    : WakeEdge m m' before after where
  asleep condition u hu := .inl (hasleep condition u hu)
  blocks condition hblocks := by
    left
    cases condition <;> simpa only [Memory.Blocks, hstopping, hqueue, hbatch] using hblocks
  notifies condition hbefore := .inl (hnotifies condition hbefore)

theorem sleep {t : Thread} (hblocks : m.Blocks condition) : WakeEdge m (m.sleep condition t) before before where
  asleep other u hu := by
    by_cases hother : other = condition
    . subst hother
      right
      cases other <;> exact hblocks
    . left
      simpa only [Memory.sleep, Memory.setAsleep, Memory.release, Function.update_of_ne hother] using hu
  blocks other hother := .inl (by cases other <;> exact hother)
  notifies _ hbefore := .inl hbefore

theorem notify (hnotifies : ∀ other, before other = true → other ≠ condition → after other = true)
    : WakeEdge m (m.notify condition) before after where
  asleep other u hu := by
    by_cases hother : other = condition
    . subst hother
      simp only [Memory.notify, Function.update_self] at hu
      cases hu
    . left
      simpa only [Memory.notify, Function.update_of_ne hother] using hu
  blocks other hother := .inl (by cases other <;> exact hother)
  notifies other hbefore := by
    by_cases hother : other = condition
    . subst hother
      exact .inr (.inr (fun u => by simp only [Memory.notify, Function.update_self]))
    . exact .inl (hnotifies other hbefore hother)

end WakeEdge

theorem CallEdge.wakes {policy : LoggerPolicy} {exited : Prop} {t : Thread} {m : Memory} {pc pc' : CallPc} {op : Op}
    (h : CallEdge policy exited t m pc op pc')
    : WakeEdge m (op.apply t m) pc.notifies pc'.notifies := by
  cases h
  case writeSleep hstopping hfull => exact .sleep ⟨hstopping, hfull⟩
  case flushSleep hbusy => exact .sleep hbusy
  case push hstopping =>
    constructor
    case asleep => exact fun _ _ hu => .inl hu
    case blocks =>
      intro condition hblocks
      cases condition with
      | records => exact .inr rfl
      | space => exact .inl ⟨hblocks.1, hblocks.2.trans (List.length_append ▸ Nat.le_add_right _ _)⟩
      | drained => exact .inl (.inl (List.append_ne_nil_of_right_ne_nil _ (List.cons_ne_nil _ _)))
    case notifies => nofun
  case stop =>
    constructor
    case asleep => exact fun _ _ hu => .inl hu
    case blocks =>
      intro condition hblocks
      cases condition with
      | records | space => exact .inr rfl
      | drained => exact .inl hblocks
    case notifies => nofun
  case writeNotify | notifyRecords | notifySpace =>
    apply WakeEdge.notify
    intro other hbefore hother
    cases other <;> first | exact absurd rfl hother | rfl | cases hbefore
  all_goals
    refine WakeEdge.frame rfl rfl rfl (fun _ _ hu => hu) ?_
    nofun

theorem WorkerEdge.wakes {m : Memory} {pc pc' : WorkerPc} {op : Op} (h : WorkerEdge m pc op pc')
    : WakeEdge m (op.apply .worker m) pc.notifies pc'.notifies := by
  cases h
  case sleep hstopping hqueue => exact .sleep ⟨hstopping, hqueue⟩
  case swap =>
    constructor
    case asleep => exact fun _ _ hu => .inl hu
    case blocks =>
      intro condition hblocks
      cases condition with
      | records => exact .inl ⟨hblocks.1, rfl⟩
      | space => exact .inr rfl
      | drained => exact .inl (.inr rfl)
    case notifies => nofun
  case drain =>
    constructor
    case asleep => exact fun _ _ hu => .inl hu
    case blocks =>
      intro condition hblocks
      cases condition with
      | records | space => exact .inl hblocks
      | drained => exact .inr rfl
    case notifies => nofun
  case exitNotify | notifySpace | notifyDrained =>
    apply WakeEdge.notify
    intro other hbefore hother
    cases other <;> first | exact absurd rfl hother | cases hbefore
  case skipNotify hqueue =>
    constructor
    case asleep => exact fun _ _ hu => .inl hu
    case blocks => exact fun _ hblocks => .inl hblocks
    case notifies =>
      intro condition hbefore
      cases condition with
      | records | space => cases hbefore
      | drained => exact .inr (.inl (.inl hqueue))
  all_goals
    refine WakeEdge.frame rfl rfl rfl (fun _ _ hu => hu) ?_
    nofun

namespace State

variable {policy : LoggerPolicy} {metadata : LoggerMetadataPolicy} {s s' : State} {event : Event} {t u : Thread}
  {condition : Condition}

def notifies (s : State) (t : Thread) (condition : Condition) : Bool :=
  (s.call t).notifies condition || (decide (t = .worker) && s.worker.notifies condition)

theorem holds_of_notifies (h : s.notifies t condition = true) : s.holds t .queue = true := by
  rw [notifies, Bool.or_eq_true, Bool.and_eq_true] at h
  rw [holds, Bool.or_eq_true, Bool.and_eq_true]
  rcases h with hcall | ⟨ht, hworker⟩
  . left
    generalize s.call t = pc at hcall ⊢
    cases pc
    case writeNotify | notifyRecords | notifySpace => rfl
    all_goals cases condition <;> cases hcall
  . right
    refine ⟨ht, ?_⟩
    generalize s.worker = pc at hworker ⊢
    cases pc
    case notifySpace | notifyDrained => rfl
    all_goals cases condition <;> cases hworker

def Awaited (s : State) : Prop :=
  ∀ condition t, s.memory.asleep condition t = true →
    s.memory.Blocks condition ∨ ∃ u, s.notifies u condition = true

theorem Awaited.edge (h : s.Awaited) {before after : Condition → Bool}
    (hwakes : WakeEdge s.memory s'.memory before after)
    (hbefore : ∀ condition, s.notifies t condition = true → before condition = true)
    (hafter : ∀ condition, after condition = true → s'.notifies t condition = true)
    (hother : ∀ u condition, u ≠ t → s'.notifies u condition = s.notifies u condition)
    : s'.Awaited := by
  intro condition sleeper hasleep
  rcases hwakes.asleep condition sleeper hasleep with hold | hblocks
  . rcases h condition sleeper hold with hblocks | ⟨u, hu⟩
    . rcases hwakes.blocks condition hblocks with hblocks' | hnotifies
      . exact .inl hblocks'
      . exact .inr ⟨t, hafter condition hnotifies⟩
    . by_cases hut : u = t
      . subst hut
        rcases hwakes.notifies condition (hbefore condition hu) with hnotifies | hblocks' | hawake
        . exact .inr ⟨u, hafter condition hnotifies⟩
        . exact .inl hblocks'
        . rw [hawake sleeper] at hasleep
          cases hasleep
      . exact .inr ⟨u, (hother u condition hut).trans hu⟩
  . exact .inl hblocks

theorem Awaited.same (h : s.Awaited) (hblocks : ∀ condition, s'.memory.Blocks condition ↔ s.memory.Blocks condition)
    (hasleep : ∀ condition t, s'.memory.asleep condition t = true → s.memory.asleep condition t = true)
    (hnotifies : ∀ u condition, s'.notifies u condition = s.notifies u condition)
    : s'.Awaited := by
  intro condition t ht
  rw [hblocks]
  simp only [hnotifies]
  exact h condition t (hasleep condition t ht)

theorem idle_notifies (condition : Condition) : CallPc.idle.notifies condition = false := by
  cases condition <;> rfl

theorem inCallback_notifies {pc : WorkerPc} (h : pc.inCallback = true) (condition : Condition)
    : pc.notifies condition = false := by
  cases pc
  case callback => cases condition <;> rfl
  all_goals cases h

theorem notifies_of_call (h : s.Nested) (hcall : s.call t ≠ .idle) (condition : Condition)
    : s.notifies t condition = (s.call t).notifies condition := by
  unfold notifies
  by_cases ht : t = .worker
  . subst ht
    rw [inCallback_notifies (h hcall), Bool.and_false, Bool.or_false]
  . rw [decide_eq_false ht, Bool.false_and, Bool.or_false]

theorem notifies_of_work (h : s.Nested) (hworker : s.worker.inCallback = false) (condition : Condition)
    : s.notifies .worker condition = s.worker.notifies condition := by
  unfold notifies
  rw [h.idle hworker, idle_notifies, decide_eq_true rfl, Bool.true_and, Bool.false_or]

theorem Awaited.step (h : s.Awaited) (hn : s.Nested) (hstep : Step policy metadata s event s') : s'.Awaited := by
  cases hstep with
  | @start t request hidle hworker =>
    apply h.same
    . intro condition
      cases request <;> cases condition <;> exact Iff.rfl
    . intro condition u hu
      cases request <;> exact hu
    . intro u condition
      by_cases hut : u = t
      . subst hut
        simp only [notifies, startCall_worker, hidle, idle_notifies]
        cases request <;> cases condition <;> simp [startCall, setCall, CallPc.notifies]
      . simp only [notifies, startCall_worker, startCall_call_of_ne hut]
  | @call t op pc hedge =>
    apply h.edge (t := t) hedge.wakes
    . intro condition hnotifies
      rwa [notifies_of_call hn (call_ne_idle hedge)] at hnotifies
    . intro condition hnotifies
      simp only [notifies, setCall, Function.update_self, hnotifies, Bool.true_or]
    . intro u condition hut
      simp only [notifies, setCall, Function.update_of_ne hut]
  | @work op pc hedge =>
    apply h.edge (t := .worker) hedge.wakes
    . intro condition hnotifies
      rwa [notifies_of_work hn (not_inCallback hedge)] at hnotifies
    . intro condition hnotifies
      simp only [notifies, hnotifies, decide_true, Bool.true_and, Bool.or_true]
    . intro u condition hut
      simp only [notifies, decide_eq_false hut, Bool.false_and]
  | filtered hworker | hand hworker | unattached hworker =>
    refine h.same (fun condition => by cases condition <;> exact Iff.rfl) (fun _ _ hu => hu) ?_
    intro u condition
    simp only [notifies, hworker]
    cases condition <;> rfl
  | finish hworker =>
    refine h.same (fun condition => by cases condition <;> exact Iff.rfl) (fun _ _ hu => hu) ?_
    intro u condition
    simp only [notifies, hworker]
    split <;> cases condition <;> rfl
  | @spurious awakened u hasleep =>
    refine h.same (fun condition => by cases condition <;> exact Iff.rfl) ?_ (fun _ _ => rfl)
    intro condition t ht
    simp only [Memory.setAsleep, Function.update_apply] at ht
    split at ht
    . next heq =>
      subst heq
      rw [Function.update_apply] at ht
      split at ht
      . cases ht
      . exact ht
    . exact ht

def Before (s : State) : Prop := ∀ t, s.memory.history.before t ⊆ s.memory.history.returned

def Flushed (policy : LoggerPolicy) (s : State) : Prop :=
  ∀ t, (s.call t).flushes = true → ∀ record, (record, true) ∈ s.memory.history.before t →
    policy record.level = true → record ∈ s.memory.history.finished.map Prod.fst

theorem before_apply (op : Op) (t : Thread) (m : Memory) : (op.apply t m).history.before = m.history.before := by
  cases op <;> rfl

theorem finished_apply (op : Op) (t : Thread) (m : Memory) : (op.apply t m).history.finished = m.history.finished := by
  cases op <;> rfl

theorem returned_apply (op : Op) (t : Thread) (m : Memory)
    : m.history.returned ⊆ (op.apply t m).history.returned := by
  cases op
  case returnWrite => exact List.subset_append_left _ _
  all_goals exact List.Subset.refl _

theorem Before.step (h : s.Before) (hstep : Step policy metadata s event s') : s'.Before := by
  intro u
  cases hstep with
  | @start t request hidle hworker =>
    cases request with
    | write | shutdown => exact h u
    | flush =>
      simp only [startCall, setCall, Memory.startFlush, Function.update_apply]
      split
      . exact List.Subset.refl _
      . exact h u
  | @call t op pc hedge =>
    simp only [setCall, before_apply]
    exact List.Subset.trans (h u) (returned_apply op t s.memory)
  | @work op pc hedge =>
    simp only [before_apply]
    exact List.Subset.trans (h u) (returned_apply op .worker s.memory)
  | _ => exact h u

theorem Ledger.finished_of_drained (h : s.Ledger) (hqueue : s.memory.queue = []) (hbatch : s.memory.batchActive = false)
    : s.memory.history.accepted = s.memory.history.finished.map Prod.fst := by
  have haccepted := h.accepted
  have hfinished := h.finished
  have hactive := h.active
  rw [hbatch] at hactive
  generalize s.worker = pc at *
  cases pc
  case notifySpace | unlockBatch | deliver | callback | count | relock | drain => cases hactive
  all_goals
    simp only [WorkerPc.batch, WorkerPc.current, hqueue, List.append_nil] at haccepted hfinished
    rw [haccepted, hfinished]

theorem flushes_edge {op : Op} {exited : Prop} {m : Memory} {pc pc' : CallPc} (h : CallEdge policy exited t m pc op pc')
    (hflushes : pc'.flushes = true)
    : pc.flushes = true ∨ m.queue = [] ∧ m.batchActive = false := by
  cases h
  case flushTest hqueue hbatch => exact .inr ⟨hqueue, hbatch⟩
  case flushUnlock => exact .inl rfl
  all_goals cases hflushes

theorem Flushed.same (h : s.Flushed policy) (hcall : ∀ t, (s'.call t).flushes = true → (s.call t).flushes = true)
    (hbefore : ∀ t, (s'.call t).flushes = true → s'.memory.history.before t = s.memory.history.before t)
    (hfinished : s.memory.history.finished ⊆ s'.memory.history.finished)
    : s'.Flushed policy := by
  intro t hflushes record hrecord hpolicy
  rw [hbefore t hflushes] at hrecord
  exact List.map_subset Prod.fst hfinished (h t (hcall t hflushes) record hrecord hpolicy)

theorem Flushed.step (h : s.Flushed policy) (hb : s.Before) (hv : s.Valid policy)
    (hstep : Step policy metadata s event s')
    : s'.Flushed policy := by
  cases hstep with
  | @start t request hidle hworker =>
    have hself : ((s.startCall t request).call t).flushes = false := by
      cases request <;> simp [startCall, setCall, CallPc.flushes]
    apply h.same
    . intro u hu
      by_cases hut : u = t
      . subst hut
        rw [hself] at hu
        cases hu
      . rwa [startCall_call_of_ne hut] at hu
    . intro u hu
      by_cases hut : u = t
      . subst hut
        rw [hself] at hu
        cases hu
      . cases request with
        | write | shutdown => rfl
        | flush => exact Function.update_of_ne hut _ _
    . cases request <;> exact List.Subset.refl _
  | @call t op pc hedge =>
    intro u hu record hrecord hpolicy
    simp only [setCall, before_apply, finished_apply] at hu hrecord ⊢
    by_cases hut : u = t
    . subst hut
      rw [Function.update_self] at hu
      rcases flushes_edge hedge hu with hflushes | ⟨hqueue, hbatch⟩
      . exact h u hflushes record hrecord hpolicy
      . rw [← hv.ledger.finished_of_drained hqueue hbatch]
        exact hv.fate.kept record (hb u hrecord) hpolicy
    . rw [Function.update_of_ne hut] at hu
      exact h u hu record hrecord hpolicy
  | work hedge =>
    refine h.same (fun _ hu => hu) ?_ ?_
    . intro u _
      simp only [before_apply]
    . simp only [finished_apply]
      exact List.Subset.refl _
  | filtered | unattached | finish =>
    exact h.same (fun _ hu => hu) (fun _ _ => rfl) (List.subset_append_left _ _)
  | hand | spurious => exact h.same (fun _ hu => hu) (fun _ _ => rfl) (List.Subset.refl _)

structure Flushing (policy : LoggerPolicy) (s : State) : Prop where
  awaited : s.Awaited
  before : s.Before
  flushed : s.Flushed policy

theorem flushing (hs : (system policy metadata).Reachable s) : s.Flushing policy := by
  apply System.ReachableVia.invariant _ _ hs
  . exact ⟨nofun, fun t => List.Subset.refl _, nofun⟩
  . intro s event s' hs h _ hstep
    have hcases := step_cases hstep
    exact ⟨h.awaited.step (valid hs).nested hcases, h.before.step hcases, h.flushed.step h.before (valid hs) hcases⟩

structure FlushContract (policy : LoggerPolicy) (s : State) : Prop where
  flush : ∀ t, s.call t = .flushed → ∀ record, (record, true) ∈ s.memory.history.before t →
    policy record.level = true → record ∈ s.memory.history.finished.map Prod.fst
  -- No thread gives the mutex away before it has notified.
  locked : ∀ t condition, s.notifies t condition = true → s.memory.owner .queue = some t
  space : (∀ u, s.notifies u .space = false) → ∀ t, s.memory.asleep .space t = true →
    s.memory.stopping = false ∧ queueCapacity ≤ s.memory.queue.length
  records : (∀ u, s.notifies u .records = false) → ∀ t, s.memory.asleep .records t = true →
    s.memory.stopping = false ∧ s.memory.queue = []
  drained : (∀ u, s.notifies u .drained = false) → ∀ t, s.memory.asleep .drained t = true →
    s.memory.queue ≠ [] ∨ s.memory.batchActive = true

theorem Awaited.blocks (h : s.Awaited) (hquiet : ∀ u, s.notifies u condition = false)
    (hasleep : s.memory.asleep condition t = true)
    : s.memory.Blocks condition := by
  rcases h condition t hasleep with hblocks | ⟨u, hu⟩
  . exact hblocks
  . rw [hquiet u] at hu
    cases hu

end State

end Vosp.AsyncLogger

namespace Vosp

open AsyncLogger

theorem async_logger_flush {policy : LoggerPolicy} {metadata : LoggerMetadataPolicy} {s : AsyncLogger.State}
    (hs : (AsyncLogger.system policy metadata).Reachable s)
    : s.FlushContract policy := by
  have hf := State.flushing hs
  constructor
  case flush => exact fun t hcall => hf.flushed t (by rw [hcall]; rfl)
  case locked => exact fun t condition h => ((State.valid hs).owned t .queue).mp (State.holds_of_notifies h)
  case space => exact fun hquiet t => hf.awaited.blocks hquiet
  case records => exact fun hquiet t => hf.awaited.blocks hquiet
  case drained => exact fun hquiet t => hf.awaited.blocks hquiet

theorem async_logger_flush_sample
    : ∃ s : AsyncLogger.State, s.call (.client 2) = .flushed ∧
        s.memory.history.before (.client 2) = [(sampleRecord, true)] ∧
        s.memory.history.finished = [(sampleRecord, .thrown)] ∧ s.FlushContract acceptAllPolicy := by
  have hrun : ((AsyncLogger.system acceptAllPolicy fullMetadataPolicy).run .init
      (.call (.client 1) (.write .info sampleError) :: List.replicate 7 (.step (.client 1)) ++
        .call (.client 2) .flush :: List.replicate 2 (.step (.client 2)) ++ List.replicate 5 .work ++
        [.backend 5 true, .finish .thrown] ++ List.replicate 6 .work ++ List.replicate 4 (.step (.client 2)))).map
      (fun s => decide (s.call (.client 2) = .flushed) &&
        (decide (s.memory.history.before (.client 2) = [(sampleRecord, true)]) &&
          decide (s.memory.history.finished = [(sampleRecord, .thrown)]))) =
        some true := by
    decide +kernel
  obtain ⟨s, hs, hp⟩ := System.exists_of_run _ hrun
  simp only [Bool.and_eq_true, decide_eq_true_eq] at hp
  exact ⟨s, hp.1, hp.2.1, hp.2.2, async_logger_flush hs⟩

end Vosp
