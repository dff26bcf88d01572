import Vosp.Pool.Fresh

/-!
This module shows that every accepted task is settled exactly once: it is queued, claimed by one
worker, executed or cancelled, and its promise and the two counters agree with that.
-/

namespace Vosp.Pool

variable {cfg : Config} {C : Type}

def History.Settled (history : History) (item : TaskItem) (outcome : Outcome) : Prop :=
  (item, outcome) ∈ history.executed ∨ item ∈ history.cancelled ∧ outcome = cancelledOutcome

namespace Memory

variable {m m' : Memory cfg C} {item : TaskItem} {outcome : Outcome}

theorem cancel_eq_none (h : m.cancel item = none)
    : item.tracked = true ∧ ∃ outcome, m.promise item.id = some outcome := by
  unfold cancel at h
  split at h
  . next htracked =>
    have hsome := settle_eq_none h
    exact ⟨htracked, hsome⟩
  . cases h

theorem complete_eq_none (h : m.complete item outcome = none)
    : item.tracked = true ∧ ∃ outcome, m.promise item.id = some outcome := by
  unfold complete at h
  split at h
  . next htracked =>
    have hsome := settle_eq_none h
    exact ⟨htracked, hsome⟩
  . split at h
    . cases h
    . cases h

theorem promise_of_cancel (h : m.cancel item = some m') {id : Nat}
    (hsome : m.promise id = some outcome)
    : m'.promise id = some outcome := by
  unfold cancel at h
  split at h
  . exact promise_of_settle h hsome
  . cases h
    exact hsome

theorem promise_of_complete {outcome' : Outcome} (h : m.complete item outcome' = some m') {id : Nat}
    (hsome : m.promise id = some outcome)
    : m'.promise id = some outcome := by
  unfold complete at h
  split at h
  . exact promise_of_settle h hsome
  . split at h
    . cases h
      exact hsome
    . cases h
      exact hsome

structure Accounted (m : Memory cfg C) : Prop where
  promise : ∀ id outcome, m.promise id = some outcome ↔
    ∃ item : TaskItem, item.id = id ∧ item.tracked = true ∧ m.history.Settled item outcome
  failed : m.failedDispatches =
    (m.history.executed.filter (fun e => !e.1.tracked && e.2.failed)).length
  dropped : m.cancelledDispatches =
    (m.history.cancelled.filter (fun item => !item.tracked)).length

namespace Accounted

theorem init : ({} : Memory cfg C).Accounted where
  promise := by simp [History.Settled]
  failed := rfl
  dropped := rfl

theorem promise_tracked {history : History} (h : m.Accounted) (htracked : item.tracked = true)
    (hnone : m.promise item.id = none)
    (hsettled : ∀ other outcome', history.Settled other outcome' ↔
      m.history.Settled other outcome' ∨ other = item ∧ outcome' = outcome)
    (id : Nat) (outcome' : Outcome)
    : Function.update m.promise item.id (some outcome) id = some outcome' ↔
        ∃ other : TaskItem, other.id = id ∧ other.tracked = true ∧ history.Settled other outcome' := by
  by_cases hid : id = item.id
  . subst hid
    rw [Function.update_self]
    constructor
    . intro heq
      cases heq
      exact ⟨item, rfl, htracked, (hsettled item outcome).mpr (.inr ⟨rfl, rfl⟩)⟩
    . rintro ⟨other, hother, htracked', hother'⟩
      cases (hsettled other outcome').mp hother' with
      | inl hbefore =>
        have hsome := (h.promise item.id outcome').mpr ⟨other, hother, htracked', hbefore⟩
        rw [hnone] at hsome
        cases hsome
      | inr heq => rw [heq.2]
  . rw [Function.update_of_ne hid, h.promise]
    constructor
    . rintro ⟨other, hother, htracked', hbefore⟩
      exact ⟨other, hother, htracked', (hsettled other outcome').mpr (.inl hbefore)⟩
    . rintro ⟨other, hother, htracked', hother'⟩
      cases (hsettled other outcome').mp hother' with
      | inl hbefore => exact ⟨other, hother, htracked', hbefore⟩
      | inr heq =>
        rw [heq.1] at hother
        exact absurd hother.symm hid

theorem promise_untracked {history : History} (h : m.Accounted) (htracked : ¬ item.tracked = true)
    (hsettled : ∀ other outcome', history.Settled other outcome' ↔
      m.history.Settled other outcome' ∨ other = item ∧ outcome' = outcome)
    (id : Nat) (outcome' : Outcome)
    : m.promise id = some outcome' ↔
        ∃ other : TaskItem, other.id = id ∧ other.tracked = true ∧ history.Settled other outcome' := by
  rw [h.promise]
  constructor
  . rintro ⟨other, hother, htracked', hbefore⟩
    exact ⟨other, hother, htracked', (hsettled other outcome').mpr (.inl hbefore)⟩
  . rintro ⟨other, hother, htracked', hother'⟩
    cases (hsettled other outcome').mp hother' with
    | inl hbefore => exact ⟨other, hother, htracked', hbefore⟩
    | inr heq =>
      rw [heq.1] at htracked'
      exact absurd htracked' htracked

theorem cancel (h : m.Accounted) (hcancel : m.cancel item = some m') : m'.Accounted := by
  have hsettled : ∀ other outcome',
      History.Settled { m.history with cancelled := m.history.cancelled ++ [item] } other outcome' ↔
        m.history.Settled other outcome' ∨ other = item ∧ outcome' = cancelledOutcome := by
    intro other outcome'
    simp [History.Settled, or_and_right, or_assoc]
  unfold Memory.cancel at hcancel
  split at hcancel
  . next htracked =>
    obtain ⟨hnone, rfl⟩ := settle_eq hcancel
    refine ⟨h.promise_tracked htracked hnone hsettled, h.failed, ?_⟩
    simpa [htracked] using h.dropped
  . next htracked =>
    cases hcancel
    refine ⟨h.promise_untracked htracked hsettled, h.failed, ?_⟩
    simpa [htracked] using h.dropped

theorem complete (h : m.Accounted) (hcomplete : m.complete item outcome = some m') : m'.Accounted := by
  have hsettled : ∀ other outcome',
      History.Settled { m.history with executed := m.history.executed ++ [(item, outcome)] }
        other outcome' ↔ m.history.Settled other outcome' ∨ other = item ∧ outcome' = outcome := by
    intro other outcome'
    simp only [History.Settled, List.mem_append, List.mem_singleton, Prod.mk.injEq]
    tauto
  unfold Memory.complete at hcomplete
  split at hcomplete
  . next htracked =>
    obtain ⟨hnone, rfl⟩ := settle_eq hcomplete
    refine ⟨h.promise_tracked htracked hnone hsettled, ?_, h.dropped⟩
    simpa [htracked] using h.failed
  . next htracked =>
    split at hcomplete
    . next hfailed =>
      cases hcomplete
      refine ⟨h.promise_untracked htracked hsettled, ?_, h.dropped⟩
      simpa [htracked, hfailed] using h.failed
    . next hfailed =>
      cases hcomplete
      refine ⟨h.promise_untracked htracked hsettled, ?_, h.dropped⟩
      simpa [htracked, hfailed] using h.failed

end Accounted

end Memory

def History.taken (history : History) (item : TaskItem) : Nat :=
  (history.executed.map (fun e => e.1)).count item + history.cancelled.count item

theorem Edge.conserve [DecidableEq C] {t : Thread cfg C} {choice : Choice cfg C} {op : Op cfg}
    {m m' : Memory cfg C} {pc pc' : Pc cfg} (h : Edge t m pc op pc') (heffect : Effect t choice op m m')
    (item : TaskItem)
    : (m'.history.removed ++ m'.history.leaving).count item + pc.hands.count item + m.history.taken item =
        (m.history.removed ++ m.history.leaving).count item + pc'.hands.count item
          + m'.history.taken item := by
  cases heffect
  case vacate =>
    simp [h.hands_vacate, Memory.vacate, History.taken]
    omega
  case complete hcomplete =>
    obtain ⟨_, _, rfl⟩ := Memory.complete_eq hcomplete
    have hhands := congrArg (List.count item) h.hands_complete
    rw [List.count_cons] at hhands
    simp only [History.taken, List.map_append, List.count_append, List.map_cons, List.map_nil,
      List.count_cons, List.count_nil]
    omega
  case cancel hcancel =>
    obtain ⟨_, _, rfl⟩ := Memory.cancel_eq hcancel
    rw [h.hands_eq rfl]
    simp [Memory.vacate, History.taken]
    omega
  case claim | cancelAll =>
    rw [h.hands_eq rfl]
    simp [Memory.claim, Memory.cancelAll, History.release, History.taken]
  all_goals exact h.hands_eq rfl ▸ rfl

theorem Effect.accounted [DecidableEq C] {t : Thread cfg C} {choice : Choice cfg C} {op : Op cfg}
    {m m' : Memory cfg C} (h : Effect t choice op m m') (hm : m.Accounted)
    : m'.Accounted := by
  cases h
  case cancel hcancel =>
    have h' := hm.cancel hcancel
    exact ⟨h'.promise, h'.failed, h'.dropped⟩
  case complete hcomplete => exact hm.complete hcomplete
  all_goals exact ⟨hm.promise, hm.failed, hm.dropped⟩

variable [Fintype C] [DecidableEq C]

namespace State

variable {s : State cfg C}

theorem conserved (hs : (system cfg C).Reachable s) (item : TaskItem)
    : (s.memory.history.removed ++ s.memory.history.leaving).count item =
        ∑ t, (s.pc t).hands.count item + s.memory.history.taken item := by
  apply reachable_induction _ _ _ hs
  . have hhands : ∀ t, ((State.init : State cfg C).pc t).hands = [] := by
      rintro (_ | _)
      all_goals rfl
    simp only [hhands, List.count_nil, Finset.sum_const_zero]
    rfl
  . intro s t choice op pc' m' _ h hedge heffect
    have hstep := hedge.conserve heffect item
    have hsum := Count.sum_update (fun pc : Pc cfg => pc.hands.count item) s.pc t pc'
    simp only
    omega
  . intro s t _ h
    exact h

theorem accounted (hs : (system cfg C).Reachable s) : s.memory.Accounted := by
  apply reachable_induction _ _ _ hs
  . exact .init
  . intro s t choice op pc' m' _ h _ heffect
    exact heffect.accounted h
  . intro s t _ h
    exact ⟨h.promise, h.failed, h.dropped⟩

theorem count_accepted (hs : (system cfg C).Reachable s) (item : TaskItem)
    : s.memory.history.queue.count item + ∑ t, (s.pc t).hands.count item
        + s.memory.history.taken item = s.memory.history.accepted.count item := by
  have hconserved := conserved hs item
  rw [(ringed hs).order, List.count_append]
  omega

theorem count_accepted_le (hs : (system cfg C).Reachable s) (item : TaskItem)
    : s.memory.history.accepted.count item ≤ 1 :=
  List.nodup_iff_count_le_one.mp (List.Nodup.of_map _ (accepted_nodup hs)) item

end State

inductive Place (cfg : Config) where
  | queued
  | claimed (index : Fin cfg.workerCount)
  | executed
  | cancelled

def State.At (s : State cfg C) (item : TaskItem) (place : Place cfg) : Prop :=
  match place with
  | .queued => item ∈ s.memory.history.queue
  | .claimed index => item ∈ (s.pc (.worker index)).hands
  | .executed => item ∈ s.memory.history.executed.map (fun e => e.1)
  | .cancelled => item ∈ s.memory.history.cancelled

structure State.Settled (s : State cfg C) : Prop where
  place : ∀ item ∈ s.memory.history.accepted, ∃! place, s.At item place
  accepted : ∀ item place, s.At item place → item ∈ s.memory.history.accepted
  claimed_once : ∀ index, (s.pc (.worker index)).hands.Nodup
  executed_once : (s.memory.history.executed.map (fun e => e.1)).Nodup
  cancelled_once : s.memory.history.cancelled.Nodup
  promise : ∀ item ∈ s.memory.history.accepted, item.tracked = true → ∀ outcome,
    (s.memory.promise item.id = some outcome ↔
      (item, outcome) ∈ s.memory.history.executed ∨
        item ∈ s.memory.history.cancelled ∧ outcome = .result (.error taskCancelledError))
  not_terminated : s.memory.terminated = false
  failed : s.memory.failedDispatches =
    (s.memory.history.executed.filter (fun e => !e.1.tracked && e.2.failed)).length
  dropped : s.memory.cancelledDispatches =
    (s.memory.history.cancelled.filter (fun item => !item.tracked)).length

namespace State

variable {s : State cfg C} {item : TaskItem}

theorem count_le (hs : (system cfg C).Reachable s) (item : TaskItem)
    : s.memory.history.queue.count item + ∑ t, (s.pc t).hands.count item
        + s.memory.history.taken item ≤ 1 := by
  rw [count_accepted hs]
  exact count_accepted_le hs item

theorem mem_accepted (hs : (system cfg C).Reachable s) {place : Place cfg} (h : s.At item place)
    : item ∈ s.memory.history.accepted := by
  apply List.count_pos_iff.mp
  rw [← count_accepted hs]
  cases place
  all_goals
    have hpos := List.count_pos_iff.mpr h
    simp only [History.taken]
  case claimed index =>
    have := Count.le_sum (fun t => (s.pc t).hands.count item) (.worker index)
    omega
  all_goals omega

theorem at_unique (hs : (system cfg C).Reachable s) {place place' : Place cfg} (h : s.At item place)
    (h' : s.At item place')
    : place = place' := by
  have hle := count_le hs item
  have hworker := fun index => Count.le_sum (fun t => (s.pc t).hands.count item) (.worker index)
  simp only [History.taken] at hle
  cases place
  all_goals cases place'
  all_goals
    have hpos := List.count_pos_iff.mpr h
    have hpos' := List.count_pos_iff.mpr h'
  case claimed.claimed i j =>
    by_cases hij : i = j
    . rw [hij]
    . have hne : (Thread.worker i : Thread cfg C) ≠ .worker j := by simpa using hij
      have := Count.add_le_sum (fun t => (s.pc t).hands.count item) hne
      omega
  case queued.claimed i | executed.claimed i | cancelled.claimed i =>
    have := hworker i
    omega
  case claimed.queued i | claimed.executed i | claimed.cancelled i =>
    have := hworker i
    omega
  all_goals first | rfl | omega

theorem exists_at (hs : (system cfg C).Reachable s) (hitem : item ∈ s.memory.history.accepted)
    : ∃ place, s.At item place := by
  have hpos := List.count_pos_iff.mpr hitem
  rw [← count_accepted hs, History.taken] at hpos
  by_cases hqueue : item ∈ s.memory.history.queue
  . exact ⟨.queued, hqueue⟩
  by_cases hexecuted : item ∈ s.memory.history.executed.map (fun e => e.1)
  . exact ⟨.executed, hexecuted⟩
  by_cases hcancelled : item ∈ s.memory.history.cancelled
  . exact ⟨.cancelled, hcancelled⟩
  rw [List.count_eq_zero.mpr hqueue, List.count_eq_zero.mpr hexecuted,
    List.count_eq_zero.mpr hcancelled, Nat.zero_add, Nat.add_zero] at hpos
  obtain ⟨t, ht⟩ := Count.exists_of_sum_pos hpos
  have hhands := List.count_pos_iff.mp ht
  cases t with
  | worker index => exact ⟨.claimed index, hhands⟩
  | client name =>
    rw [Pc.hands_eq_nil ((counted hs).kind (.client name))] at hhands
    cases hhands

theorem eq_of_id_eq (hs : (system cfg C).Reachable s) {item item' : TaskItem}
    (h : item ∈ s.memory.history.accepted) (h' : item' ∈ s.memory.history.accepted)
    (hid : item.id = item'.id)
    : item = item' :=
  List.inj_on_of_nodup_map (accepted_nodup hs) h h' hid

omit [Fintype C] [DecidableEq C] in
theorem at_of_settled {outcome : Outcome} (h : s.memory.history.Settled item outcome)
    : ∃ place, s.At item place ∧ (place = .executed ∨ place = .cancelled) := by
  cases h with
  | inl hexecuted => exact ⟨.executed, List.mem_map.mpr ⟨_, hexecuted, rfl⟩, .inl rfl⟩
  | inr hcancelled => exact ⟨.cancelled, hcancelled.1, .inr rfl⟩

theorem eq_of_settled (hs : (system cfg C).Reachable s) {item other : TaskItem} {outcome : Outcome}
    (hitem : item ∈ s.memory.history.accepted) (hother : s.memory.history.Settled other outcome)
    (hid : other.id = item.id)
    : other = item := by
  obtain ⟨place, hplace, -⟩ := at_of_settled hother
  exact eq_of_id_eq hs (mem_accepted hs hplace) hitem hid

theorem promise_eq_none (hs : (system cfg C).Reachable s) {place : Place cfg} (h : s.At item place)
    (hplace : place ≠ .executed ∧ place ≠ .cancelled) {outcome : Outcome}
    : s.memory.promise item.id ≠ some outcome := by
  intro hsome
  obtain ⟨other, hid, -, hsettled⟩ := ((accounted hs).promise _ _).mp hsome
  have heq := eq_of_settled hs (mem_accepted hs h) hsettled hid
  subst heq
  obtain ⟨place', hplace', hcases⟩ := at_of_settled hsettled
  rw [at_unique hs hplace' h] at hcases
  cases hcases with
  | inl hexecuted => exact hplace.1 hexecuted
  | inr hcancelled => exact hplace.2 hcancelled

theorem not_terminated (hs : (system cfg C).Reachable s) : s.memory.terminated = false := by
  apply reachable_induction _ _ _ hs
  . rfl
  . intro s t choice op pc' m' hs h hedge heffect
    cases heffect
    case terminate =>
      exfalso
      generalize hpc : s.pc t = pc at hedge
      cases hedge with
      | cancelSlotTerminate hhead hnone =>
        obtain ⟨-, outcome, hsome⟩ := Memory.cancel_eq_none hnone
        have hclaiming := (counted hs).claiming t
        have hconsuming := (counted hs).consuming t
        rw [hpc] at hclaiming hconsuming
        have hpos := Pc.queue_pos rfl hclaiming hconsuming
        rw [(ringed hs).head_eq hpos] at hhead
        have hqueued : s.At _ .queued := List.mem_of_head? hhead
        exact promise_eq_none hs hqueued ⟨nofun, nofun⟩ hsome
      | @completeTerminate _ f hnone =>
        obtain ⟨-, outcome, hsome⟩ := Memory.complete_eq_none hnone
        have hhands : f.item ∈ (s.pc t).hands := by
          rw [hpc]
          exact List.mem_cons_self
        cases t with
        | worker index =>
          have hclaimed : s.At f.item (.claimed index) := hhands
          exact promise_eq_none hs hclaimed ⟨nofun, nofun⟩ hsome
        | client name =>
          rw [Pc.hands_eq_nil ((counted hs).kind (.client name))] at hhands
          cases hhands
    case cancel hcancel =>
      obtain ⟨_, _, rfl⟩ := Memory.cancel_eq hcancel
      exact h
    case complete hcomplete =>
      obtain ⟨_, _, rfl⟩ := Memory.complete_eq hcomplete
      exact h
    all_goals exact h
  . intro s t _ h
    exact h

theorem promise_step {s' : State cfg C} {event : Event cfg C} (h : (system cfg C).step s event = some s')
    {id : Nat} {outcome : Outcome} (hsome : s.memory.promise id = some outcome)
    : s'.memory.promise id = some outcome := by
  cases step_cases h with
  | spurious => exact hsome
  | thread t choice hedge heffect =>
    cases heffect
    case cancel hcancel => exact Memory.promise_of_cancel hcancel hsome
    case complete hcomplete => exact Memory.promise_of_complete hcomplete hsome
    all_goals exact hsome

theorem settled (hs : (system cfg C).Reachable s) : s.Settled := by
  constructor
  case place =>
    intro item hitem
    obtain ⟨place, hplace⟩ := exists_at hs hitem
    exact ⟨place, hplace, fun other hother => at_unique hs hother hplace⟩
  case accepted => exact fun item place h => mem_accepted hs h
  case claimed_once =>
    intro index
    apply List.nodup_iff_count_le_one.mpr
    intro item
    have hle := count_le hs item
    have := Count.le_sum (fun t => (s.pc t).hands.count item) (.worker index)
    omega
  case executed_once =>
    apply List.nodup_iff_count_le_one.mpr
    intro item
    have hle := count_le hs item
    rw [History.taken] at hle
    omega
  case cancelled_once =>
    apply List.nodup_iff_count_le_one.mpr
    intro item
    have hle := count_le hs item
    rw [History.taken] at hle
    omega
  case promise =>
    intro item hitem htracked outcome
    rw [(accounted hs).promise]
    constructor
    . rintro ⟨other, hid, -, hsettled⟩
      rwa [eq_of_settled hs hitem hsettled hid] at hsettled
    . intro hsettled
      exact ⟨item, rfl, htracked, hsettled⟩
  case not_terminated => exact not_terminated hs
  case failed => exact (accounted hs).failed
  case dropped => exact (accounted hs).dropped

end State

theorem tasks_settle_once {s : State cfg C} (hs : (system cfg C).Reachable s)
    : s.Settled ∧ ∀ event s', (system cfg C).step s event = some s' →
        ∀ id outcome, s.memory.promise id = some outcome → s'.memory.promise id = some outcome :=
  ⟨State.settled hs, fun _ _ h _ _ hsome => State.promise_step h hsome⟩

theorem tasks_settle_once_tiny
    : ∃ s : State tinyConfig Unit, (system tinyConfig Unit).Reachable s ∧
        s.memory.history.executed.length = 1 ∧ s.Settled := by
  have hrun : ((system tinyConfig Unit).run State.init tinyRun).map
      (fun s => s.memory.history.executed.length == 1) = some true := by
    decide +kernel
  obtain ⟨s, hs, hexecuted⟩ := System.exists_of_run _ hrun
  exact ⟨s, hs, by simpa using hexecuted, (tasks_settle_once hs).1⟩

end Vosp.Pool
