import Vosp.Pool.Submission

/-!
This module contains the postcondition of `shutdown`. A task is cancelled and a stop token requested
only on behalf of a call that is still in the history of calls, so a pool that is only ever drained
executes every task that it accepted.
-/

namespace Vosp.Pool

variable {cfg : Config} {C : Type}

def Request.cancels (request : Request) : Bool :=
  match request with
  | .clearQueue | .shutdown .cancelPending => true
  | _ => false

def Caller.request (caller : Caller) : Request :=
  match caller with
  | .clearQueue => .clearQueue
  | .signalShutdown => .shutdown .cancelPending

theorem Caller.request_cancels (caller : Caller) : caller.request.cancels = true := by
  cases caller
  all_goals rfl

def Op.cancels (op : Op cfg) : Bool :=
  match op with
  | .cancel _ | .requestStop _ => true
  | _ => false

def Pc.cause (pc : Pc cfg) : Option Request :=
  match pc with
  | .cancelLock _ caller _ | .cancelTry _ caller _ | .cancelBackOff _ caller _ | .cancelLoad _ caller
  | .cancelSlot _ caller _ _ | .cancelPublish _ caller _ | .cancelActive _ caller _
  | .cancelIdle _ caller _ | .cancelEpoch _ caller _ | .cancelEpochNotify _ caller _
  | .cancelNotify _ caller _ | .cancelUnlockProducer _ caller _ | .cancelUnlockConsumer _ caller _ =>
    some caller.request
  | .shutdownLock mode | .signalLock _ mode | .signalStop _ mode | .signalUnlock _ mode =>
    some (.shutdown mode)
  | .workersLock _ | .workersRead _ | .workersStop .. => some (.shutdown .cancelPending)
  | _ => none

namespace Edge

variable {t : Thread cfg C} {m : Memory cfg C} {pc pc' : Pc cfg} {op : Op cfg} {request : Request}

theorem cause (h : Edge t m pc op pc') (hcause : pc'.cause = some request)
    : pc.cause = some request ∨ op = .call request := by
  cases h
  all_goals first | exact .inl hcause | cases hcause <;> exact .inr rfl

theorem cause_of_cancels (h : Edge t m pc op pc') (hop : op.cancels = true)
    : ∃ request, pc.cause = some request ∧ request.cancels = true := by
  cases h
  case cancelSlot caller _ _ _ => exact ⟨_, rfl, caller.request_cancels⟩
  case workersStop => exact ⟨_, rfl, rfl⟩
  all_goals cases hop

end Edge

namespace Effect

variable [DecidableEq C] {t : Thread cfg C} {choice : Choice cfg C} {op : Op cfg}
  {m m' : Memory cfg C} {request : Request}

theorem calls_mono (h : Effect t choice op m m') (hrequest : request ∈ m.history.calls)
    : request ∈ m'.history.calls := by
  cases h
  case call => exact List.mem_append_left _ hrequest
  case cancel hcancel =>
    obtain ⟨_, _, rfl⟩ := Memory.cancel_eq hcancel
    exact hrequest
  case complete hcomplete =>
    obtain ⟨_, _, rfl⟩ := Memory.complete_eq hcomplete
    exact hrequest
  all_goals exact hrequest

theorem mem_calls (h : Effect t choice (.call request) m m') : request ∈ m'.history.calls := by
  cases h
  exact List.mem_append_right _ (List.mem_singleton_self _)

theorem cancelled_eq (h : Effect t choice op m m') (hop : op.cancels = false)
    : m'.history.cancelled = m.history.cancelled ∧ m'.stopRequested = m.stopRequested := by
  cases h
  case complete hcomplete =>
    obtain ⟨_, _, rfl⟩ := Memory.complete_eq hcomplete
    exact ⟨rfl, rfl⟩
  all_goals first | exact ⟨rfl, rfl⟩ | cases hop

end Effect

variable [Fintype C] [DecidableEq C]

namespace State

variable {s : State cfg C}

theorem mem_calls_of_cause (hs : (system cfg C).Reachable s)
    : ∀ t request, (s.pc t).cause = some request → request ∈ s.memory.history.calls := by
  apply reachable_induction _ _ _ hs
  . rintro (_ | _) request h
    all_goals cases h
  . intro s t choice op pc' m' _ h hedge heffect
    apply forall_update (fun _ pc => ∀ request, pc.cause = some request → request ∈ m'.history.calls)
    . intro request hcause
      cases hedge.cause hcause with
      | inl hbefore => exact heffect.calls_mono (h t request hbefore)
      | inr hcall =>
        rw [hcall] at heffect
        exact heffect.mem_calls
    . exact fun u _ request hcause => heffect.calls_mono (h u request hcause)
  . intro s t _ h
    exact h

theorem cancelled_of_call (hs : (system cfg C).Reachable s)
    : (s.memory.history.cancelled = [] ∧ ∀ i, s.memory.stopRequested i = false) ∨
        ∃ request ∈ s.memory.history.calls, request.cancels = true := by
  apply reachable_induction _ _ _ hs
  . exact .inl ⟨rfl, fun _ => rfl⟩
  . intro s t choice op pc' m' hs h hedge heffect
    by_cases hop : op.cancels = true
    . obtain ⟨request, hcause, hcancels⟩ := hedge.cause_of_cancels hop
      have hrequest := mem_calls_of_cause hs t request hcause
      exact .inr ⟨request, heffect.calls_mono hrequest, hcancels⟩
    . rw [Bool.not_eq_true] at hop
      cases h with
      | inl hnone =>
        left
        rwa [(heffect.cancelled_eq hop).1, (heffect.cancelled_eq hop).2]
      | inr hcall =>
        obtain ⟨request, hrequest, hcancels⟩ := hcall
        exact .inr ⟨request, heffect.calls_mono hrequest, hcancels⟩
  . intro s t _ h
    exact h

/--
What holds from the step on that sets the stop bit: nothing is accepted any more, and every submission in progress
comes to its end with the tasks that it had accepted before.
-/
structure Closed (s : State cfg C) : Prop where
  accepted : ∀ event s', (system cfg C).step s event = some s' →
    s'.memory.history.accepted = s.memory.history.accepted ∧ s'.memory.isStopping = true
  submission : ∀ t choice s' c j, (s.pc t).submission = some (c, j) →
    (system cfg C).step s (.step t choice) = some s' →
    (∃ j', (s'.pc t).submission = some (c, j') ∧ j.Same j' ∧ (s'.pc t).stepsLeft < (s.pc t).stepsLeft) ∨
      s'.pc t = .resting c (some j.outcome)
  call : ∀ t request s' c c' last j, s.pc t = .resting c last →
    (system cfg C).step s (.step t (.call request)) = some s' → (s'.pc t).submission = some (c', j) →
    j.accepted = 0 ∧ j.tasks = request.items s.memory.history.nextId
  taken : ∀ t c j, (s.pc t).submission = some (c, j) →
    ∀ item ∈ j.tasks.take j.accepted, item ∈ s.memory.history.accepted
  refused : ∀ t c j, (s.pc t).submission = some (c, j) →
    ∀ item ∈ j.tasks.drop j.accepted, item ∉ s.memory.history.accepted
  woken : s.memory.history.signalled ≠ [] → ∀ t, s.memory.stateSleeper t = false
  enabled : ∀ t c j, (s.pc t).submission = some (c, j) → s.memory.stateSleeper t = false →
    (∀ c j, s.pc t ≠ .producerLock c j) ∨ s.memory.owner .producer = none →
    ∃ choice s', (system cfg C).step s (.step t choice) = some s'

theorem closed (hs : (system cfg C).Reachable s) (hstopping : s.memory.isStopping = true) : s.Closed := by
  constructor
  case accepted => exact fun event s' h => accepted_step hs hstopping h
  case submission => exact fun t choice s' c j hj h => submission_step hs hstopping hj h
  case call =>
    intro t request s' c c' last j hpc h hj
    obtain ⟨op, pc', m', hedge, heffect, rfl⟩ := step_of_pc h hpc
    have hnext : (Function.update s.pc t pc' t).submission = some (c', j) := hj
    rw [Function.update_self] at hnext
    cases heffect with
    | call => exact hedge.submission_call hnext
    | read =>
      cases hedge
      cases hnext
  case taken =>
    intro t c j hj item hitem
    apply sent_accepted hs t
    rwa [Pc.sent, hj]
  case refused =>
    intro t c j hj item hitem
    apply unsent_not_accepted hs (t := t)
    rwa [unsent_eq hs hstopping hj]
  case woken => exact awake_of_signalled hs
  case enabled => exact fun t c j hj hawake hmutex => submission_enabled hj hawake hmutex

structure Drained (s : State cfg C) : Prop where
  cancelled : s.memory.history.cancelled = []
  stopRequested : ∀ i, s.memory.stopRequested i = false
  executed : ∀ t, (s.pc t).shutDown = true → ∀ item ∈ s.memory.history.accepted, s.At item .executed

theorem finished_of_shutDown (hs : (system cfg C).Reachable s) {t : Thread cfg C}
    (h : (s.pc t).shutDown = true)
    : s.Finished :=
  finished hs (exited_of_shutDown hs t h)

theorem drained_of_calls (hs : (system cfg C).Reachable s)
    (hcalls : ∀ request ∈ s.memory.history.calls, request.cancels = false)
    : s.Drained := by
  cases cancelled_of_call hs with
  | inr hcall =>
    obtain ⟨request, hrequest, hcancels⟩ := hcall
    rw [hcalls request hrequest] at hcancels
    cases hcancels
  | inl hnone =>
    refine ⟨hnone.1, hnone.2, ?_⟩
    intro t hshutDown item hitem
    cases (finished_of_shutDown hs hshutDown).settled item hitem with
    | inl hexecuted => exact hexecuted
    | inr hcancelled =>
      have hmem : item ∈ s.memory.history.cancelled := hcancelled
      rw [hnone.1] at hmem
      cases hmem

end State

theorem shutdown_postcondition {s : State cfg C} (hs : (system cfg C).Reachable s)
    : (s.memory.isStopping = true → s.Closed) ∧ (∀ t, (s.pc t).shutDown = true → s.Finished) ∧
        ((∀ request ∈ s.memory.history.calls, request.cancels = false) → s.Drained) :=
  ⟨State.closed hs, fun _ h => State.finished_of_shutDown hs h, State.drained_of_calls hs⟩

theorem shutdown_postcondition_tiny
    : ∃ s : State tinyConfig Unit, (system tinyConfig Unit).Reachable s ∧
        s.memory.history.accepted.length = 1 ∧ s.Closed ∧ s.Finished ∧ s.Drained := by
  have hrun : ((system tinyConfig Unit).run State.init tinyRun).map
      (fun s => s.memory.history.accepted.length == 1 && s.memory.isStopping &&
        (s.pc (.client ())).shutDown && s.memory.history.calls.all (fun request => !request.cancels))
      = some true := by
    decide +kernel
  obtain ⟨s, hs, hp⟩ := System.exists_of_run _ hrun
  simp only [Bool.and_eq_true, beq_iff_eq, List.all_eq_true, Bool.not_eq_true'] at hp
  obtain ⟨⟨⟨haccepted, hstopping⟩, hshutDown⟩, hcalls⟩ := hp
  have h := shutdown_postcondition hs
  exact ⟨s, hs, haccepted, h.1 hstopping, h.2.1 _ hshutDown, h.2.2 hcalls⟩

end Vosp.Pool
