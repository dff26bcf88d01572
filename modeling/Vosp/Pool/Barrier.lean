import Vosp.Pool.Joining

/-!
This module says what `wait` is for. As long as the count of the active tasks cannot overflow its field, `wait`
returns only when everything that was accepted before is settled, and a task that waits for its own pool waits
for itself.
-/

namespace Vosp.Pool

variable {cfg : Config} {C : Type}

def Pc.waitsFor (pc : Pc cfg) : Option Context :=
  match pc with
  | .idleCheck c | .idleEnlist c | .epochLoad c | .idleRecheck c _ | .epochWait c _ | .idleDelist c => some c
  | _ => none

def Pc.waited (pc : Pc cfg) : Bool :=
  match pc with
  | .resting _ (some .waited) => true
  | _ => false

namespace Edge

variable {t : Thread cfg C} {m : Memory cfg C} {pc pc' : Pc cfg} {op : Op cfg} {c : Context}

theorem idle_of_waited (h : Edge t m pc op pc') (hwaited : pc'.waited = true) : isIdle m.queueState = true := by
  cases h
  case idleCheck hidle => exact hidle
  all_goals cases hwaited

theorem waitsFor (h : Edge t m pc op pc') (hwaits : pc.waitsFor = some c)
    : pc'.waitsFor = some c ∨ isIdle m.queueState = true := by
  cases h
  case idleCheck hidle => exact .inr hidle
  all_goals first | exact .inl hwaits | cases hwaits

end Edge

theorem Effect.settled_mono [DecidableEq C] {t : Thread cfg C} {choice : Choice cfg C} {op : Op cfg}
    {m m' : Memory cfg C} (h : Effect t choice op m m') {item : TaskItem} {outcome : Outcome}
    (hsettled : m.history.Settled item outcome)
    : m'.history.Settled item outcome := by
  cases h
  case cancel hcancel =>
    obtain ⟨_, _, rfl⟩ := Memory.cancel_eq hcancel
    exact hsettled.imp id fun ⟨hmem, houtcome⟩ => ⟨List.mem_append_left _ hmem, houtcome⟩
  case complete hcomplete =>
    obtain ⟨_, _, rfl⟩ := Memory.complete_eq hcomplete
    exact hsettled.imp (List.mem_append_left _) id
  all_goals exact hsettled

theorem Effect.accepted_mono [DecidableEq C] {t : Thread cfg C} {choice : Choice cfg C} {op : Op cfg}
    {m m' : Memory cfg C} (h : Effect t choice op m m') {item : TaskItem} (hitem : item ∈ m.history.accepted)
    : item ∈ m'.history.accepted := by
  by_cases hop : ∃ n, op = .publish n
  . obtain ⟨n, rfl⟩ := hop
    cases h
    exact List.mem_append_left _ hitem
  . simp only [not_exists] at hop
    rw [h.accepted_eq hop]
    exact hitem

variable [Fintype C] [DecidableEq C]

namespace State

variable {s s' : State cfg C} {t : Thread cfg C} {item : TaskItem}

theorem idle_of_isIdle (hs : (system cfg C).Reachable s)
    (hfits : cfg.workerCount * min bulkClaimSize cfg.queueCapacity < 2 ^ countBits)
    (hidle : isIdle s.memory.queueState = true)
    : s.Idle := by
  have hcounted := counted hs
  have hle := active_le hcounted.kind hcounted.claiming
  have hactive : s.memory.activeTasks = ∑ t, (s.pc t).active := by
    rw [hcounted.active_eq]
    simp only [countBits] at hfits
    omega
  exact (idleSound_of_active_eq hs hactive).idle hidle

theorem at_of_idle (hs : (system cfg C).Reachable s) (hidle : s.Idle) (hitem : item ∈ s.memory.history.accepted)
    : s.At item .executed ∨ s.At item .cancelled := by
  obtain ⟨place, hplace⟩ := exists_at hs hitem
  cases place with
  | queued =>
    have hqueue : s.memory.history.queue = [] := (List.append_eq_nil_iff.mp hidle.queue_eq).2
    have hmem : item ∈ s.memory.history.queue := hplace
    rw [hqueue] at hmem
    cases hmem
  | claimed i =>
    have hmem : item ∈ (s.pc (.worker i)).hands := hplace
    rw [hidle.hands_eq] at hmem
    cases hmem
  | executed => exact .inl hplace
  | cancelled => exact .inr hplace

theorem settled_of_idle (hs : (system cfg C).Reachable s) (hidle : s.Idle) (hitem : item ∈ s.memory.history.accepted)
    : ∃ outcome, s.memory.history.Settled item outcome := by
  rcases at_of_idle hs hidle hitem with hexecuted | hcancelled
  . obtain ⟨⟨_, outcome⟩, hmem, rfl⟩ := List.mem_map.mp hexecuted
    exact ⟨outcome, .inl hmem⟩
  . exact ⟨cancelledOutcome, .inr ⟨hcancelled, rfl⟩⟩

def Barrier (t : Thread cfg C) (items : List TaskItem) (s : State cfg C) : Prop :=
  (∀ item ∈ items, item ∈ s.memory.history.accepted) ∧
    ((s.pc t).waited = true → ∀ item ∈ items, ∃ outcome, s.memory.history.Settled item outcome)

theorem Barrier.step {items : List TaskItem} {event : Event cfg C} (h : s.Barrier t items)
    (hs : (system cfg C).Reachable s)
    (hfits : cfg.workerCount * min bulkClaimSize cfg.queueCapacity < 2 ^ countBits)
    (hstep : (system cfg C).step s event = some s')
    : s'.Barrier t items := by
  cases step_cases hstep with
  | spurious => exact h
  | @thread u choice op pc' m' hedge heffect =>
    refine ⟨fun item hitem => heffect.accepted_mono (h.1 item hitem), ?_⟩
    intro hwaited item hitem
    have hbefore : ∃ outcome, s.memory.history.Settled item outcome := by
      by_cases htu : t = u
      . subst htu
        dsimp only at hwaited
        rw [Function.update_self] at hwaited
        exact settled_of_idle hs (idle_of_isIdle hs hfits (hedge.idle_of_waited hwaited)) (h.1 item hitem)
      . dsimp only at hwaited
        rw [Function.update_of_ne htu] at hwaited
        exact h.2 hwaited item hitem
    obtain ⟨outcome, hsettled⟩ := hbefore
    exact ⟨outcome, heffect.settled_mono hsettled⟩

omit [Fintype C] [DecidableEq C] in
theorem hands_of_waitsFor {f : Frame} (h : (s.pc t).waitsFor = some (some f)) : (s.pc t).hands = f.item :: f.rest := by
  generalize s.pc t = pc at h
  cases pc
  case idleCheck | idleEnlist | epochLoad | idleRecheck | epochWait | idleDelist =>
    cases h
    rfl
  all_goals cases h

theorem waitsFor_step {f : Frame} {event : Event cfg C} (hs : (system cfg C).Reachable s)
    (hfits : cfg.workerCount * min bulkClaimSize cfg.queueCapacity < 2 ^ countBits)
    (hwaits : (s.pc t).waitsFor = some (some f)) (hstep : (system cfg C).step s event = some s')
    : (s'.pc t).waitsFor = some (some f) := by
  cases step_cases hstep with
  | spurious => exact hwaits
  | @thread u choice op pc' m' hedge heffect =>
    by_cases htu : t = u
    . subst htu
      dsimp only
      rw [Function.update_self]
      rcases hedge.waitsFor hwaits with hsame | hidle
      . exact hsame
      . have hhands := (idle_of_isIdle hs hfits hidle).hands_eq t
        rw [hands_of_waitsFor hwaits] at hhands
        cases hhands
    . dsimp only
      rw [Function.update_of_ne htu]
      exact hwaits

structure WaitContract (s : State cfg C) : Prop where
  barrier : ∀ t c, (s.pc t).waitsFor = some c → ∀ events s', (system cfg C).run s events = some s' →
    (s'.pc t).waited = true → ∀ item ∈ s.memory.history.accepted, ∃ outcome,
      s'.memory.history.Settled item outcome ∧ (item.tracked = true → s'.memory.promise item.id = some outcome)
  -- The worker never gets out of the task.
  task : ∀ t f, (s.pc t).waitsFor = some (some f) → ∀ events s', (system cfg C).run s events = some s' →
    (s'.pc t).waitsFor = some (some f)

end State

theorem wait_is_barrier (hfits : cfg.workerCount * min bulkClaimSize cfg.queueCapacity < 2 ^ countBits)
    {s : State cfg C} (hs : (system cfg C).Reachable s)
    : s.WaitContract := by
  constructor
  case barrier =>
    intro t c hwaits events s' hrun hwaited item hitem
    have hstart : s.Barrier t s.memory.history.accepted := by
      refine ⟨fun _ h => h, ?_⟩
      intro hreturned
      generalize s.pc t = pc at hwaits hreturned
      cases pc
      case resting => cases hwaits
      all_goals cases hreturned
    have hbarrier := hs.run_invariant (I := fun s' => s'.Barrier t s.memory.history.accepted)
      (fun _ _ _ hs₁ h hstep => h.step hs₁ hfits hstep) hstart events hrun
    obtain ⟨outcome, hsettled⟩ := hbarrier.2 hwaited item hitem
    refine ⟨outcome, hsettled, ?_⟩
    intro htracked
    exact ((State.accounted (hs.run events hrun)).promise _ _).mpr ⟨item, rfl, htracked, hsettled⟩
  case task =>
    intro t f hwaits events s' hrun
    exact hs.run_invariant (I := fun s' => (s'.pc t).waitsFor = some (some f))
      (fun _ _ _ hs₁ h hstep => State.waitsFor_step hs₁ hfits h hstep) hwaits events hrun

-- The client's wait returns after the task is settled. A task that waits itself never gets out.
theorem wait_is_barrier_tiny
    : (∃ (s s' : State tinyConfig Unit) (events : List (Event tinyConfig Unit)),
        (s.pc (.client ())).waitsFor = some none ∧ s.memory.history.executed = [] ∧
        (system tinyConfig Unit).run s events = some s' ∧ (s'.pc (.client ())).waited = true ∧
        ∃ item ∈ s.memory.history.accepted, ∃ outcome, s'.memory.history.Settled item outcome) ∧
      ∃ s : State tinyConfig Unit, ((s.pc (.worker (0 : Fin 1))).waitsFor.bind id).isSome = true ∧ s.WaitContract := by
  let client : Thread tinyConfig Unit := .client ()
  let worker : Thread tinyConfig Unit := .worker (0 : Fin 1)
  let accept : List (Event tinyConfig Unit) :=
    .step client (.call .submit) :: Event.goes client 8 ++ Event.goes worker 9
  constructor
  . let rest : List (Event tinyConfig Unit) :=
      Event.goes client 5 ++ .step worker (.ret (.result (.ok ()))) :: Event.goes worker 9 ++ Event.goes client 3
    have hrun : ((system tinyConfig Unit).run State.init (accept ++ [.step client (.call .wait)])).map (fun s =>
        (s.pc client).waitsFor.isSome && ((s.pc client).waitsFor.bind id).isNone &&
          s.memory.history.executed.isEmpty && !s.memory.history.accepted.isEmpty &&
          ((system tinyConfig Unit).run s rest).any (fun s' => (s'.pc client).waited)) = some true := by
      decide +kernel
    obtain ⟨s, hs, hp⟩ := System.exists_of_run _ hrun
    simp only [Bool.and_eq_true, Bool.not_eq_true', List.isEmpty_iff, Option.any_eq_true] at hp
    obtain ⟨⟨⟨⟨hsome, hnone⟩, hexecuted⟩, haccepted⟩, s', hrest, hwaited⟩ := hp
    have hwaits : (s.pc client).waitsFor = some none := by
      obtain ⟨c, hc⟩ := Option.isSome_iff_exists.mp hsome
      rw [hc, Option.bind_some, id_eq, Option.isNone_iff_eq_none] at hnone
      rw [hc, hnone]
    obtain ⟨item, hitem⟩ := List.exists_mem_of_ne_nil _ (List.isEmpty_eq_false_iff.mp haccepted)
    obtain ⟨outcome, hsettled, -⟩ :=
      (wait_is_barrier (by decide) hs).barrier client none hwaits rest s' hrest hwaited item hitem
    exact ⟨s, s', rest, hwaits, hexecuted, hrest, hwaited, item, hitem, outcome, hsettled⟩
  . have hrun : ((system tinyConfig Unit).run State.init
        (accept ++ .step worker (.call .wait) :: Event.goes worker 5)).map
        (fun s => ((s.pc worker).waitsFor.bind id).isSome) = some true := by
      decide +kernel
    obtain ⟨s, hs, hworker⟩ := System.exists_of_run _ hrun
    exact ⟨s, hworker, wait_is_barrier (by decide) hs⟩

end Vosp.Pool
