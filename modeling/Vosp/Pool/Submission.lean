import Vosp.Pool.Joining

/-!
This module follows one call of `submit`, `dispatch` or `dispatch_bulk`: which of its tasks have been
accepted while it runs, and that the stop bit makes it return what it has achieved so far.
-/

namespace Vosp.Pool

variable {cfg : Config} {C : Type}

def Submission.outcome (j : Submission) : Result :=
  if j.bulk then
    .dispatched j.tasks j.accepted
  else if j.accepted = 0 then
    .rejected j.tasks
  else
    .enqueued j.tasks

def Submission.Same (j j' : Submission) : Prop :=
  j'.tasks = j.tasks ∧ j'.accepted = j.accepted ∧ j'.bulk = j.bulk

namespace Pc

def submission (pc : Pc cfg) : Option (Context × Submission) :=
  match pc with
  | .spaceLoad c j | .spaceEnlist c j | .spaceObserve c j | .spaceWait c j _ | .spaceDelist c j
  | .producerLock c j | .producerLoad c j | .producerReject c j | .producerRetry c j
  | .slotWrite c j _ _ | .producerUnlock c j _ | .workersWaiting c j _ | .workersNotify c j _
  | .submitted c j | .rejected c j => some (c, j)
  | _ => none

def sent (pc : Pc cfg) : List TaskItem :=
  match pc.submission with
  | some (_, j) => j.tasks.take j.accepted
  | none => []

def stepsLeft (pc : Pc cfg) : Nat :=
  match pc with
  | .rejected .. => 1
  | .spaceLoad .. | .producerReject .. => 2
  | .spaceDelist .. | .producerRetry .. | .producerLoad .. | .submitted .. => 3
  | .spaceObserve .. | .spaceWait .. | .producerLock .. | .workersNotify .. => 4
  | .spaceEnlist .. | .workersWaiting .. => 5
  | .producerUnlock .. => 6
  | _ => 0

end Pc

namespace Edge

variable {t : Thread cfg C} {m : Memory cfg C} {pc pc' : Pc cfg} {op : Op cfg} {c : Context}
  {j : Submission} {item : TaskItem}

theorem submission (h : Edge t m pc op pc') (hstopping : m.isStopping = true) (hpc : pc.Submitting)
    (hproducing : pc.Producing m)
    (hobserves : ∀ observed, pc.observes = some observed → isStoppingState observed = false)
    (hj : pc.submission = some (c, j)) (hawake : ∀ observed, op = .sleep observed → m.queueState = observed)
    : (∃ j', pc'.submission = some (c, j') ∧ j.Same j' ∧ pc'.stepsLeft < pc.stepsLeft) ∨
        pc' = .resting c (some j.outcome) := by
  have hsame : j.Same j := ⟨rfl, rfl, rfl⟩
  have hstate : isStoppingState m.queueState = true := hstopping
  cases h
  case spaceLoadFull hfull => simp [isFull, hstate] at hfull
  case spaceObserveFull hfull => simp [isFull, hstate] at hfull
  case spaceLoad hrunning => exact absurd hstate hrunning
  case producerLoadFull hrunning _ => exact absurd hstate hrunning
  case producerLoad hrunning _ => exact absurd hstate hrunning
  case slotWrite => rw [hproducing.2.2] at hstopping; cases hstopping
  case slotPublish => rw [hproducing.2.2] at hstopping; cases hstopping
  case spaceSleep observed =>
    have hrunning := hobserves observed rfl
    rw [← hawake observed rfl, hstate] at hrunning
    cases hrunning
  case submittedScalar hscalar =>
    cases hj
    have hone := (hpc hscalar).2
    right
    simp [Submission.outcome, hscalar, hone]
  case submittedAll hbulk _ =>
    cases hj
    right
    simp [Submission.outcome, hbulk]
  case rejectedBulk hbulk =>
    cases hj
    right
    simp [Submission.outcome, hbulk]
  case rejectedScalar hscalar =>
    cases hj
    have hlength := hpc.2 hscalar
    have hopen := hpc.1
    have hzero : j.accepted = 0 := by omega
    right
    simp [Submission.outcome, hscalar, hzero]
  all_goals
    cases hj <;> exact .inl ⟨_, rfl, hsame, by simp [Pc.stepsLeft]⟩

theorem sent (h : Edge t m pc op pc') (hpc : pc.Submitting) (hproducing : pc.Producing m)
    (hitem : item ∈ pc'.sent)
    : item ∈ pc.sent ∨ (∃ n, op = .publish n) ∧ item ∈ m.history.written := by
  cases h
  case slotPublish j written =>
    have hsplit : item ∈ j.tasks.take (j.accepted + written.length) := hitem
    obtain ⟨rest, hrest⟩ := hpc.2.1
    rw [List.append_nil] at hrest
    rw [List.take_add, ← hrest, List.take_left, List.mem_append] at hsplit
    cases hsplit with
    | inl hbefore => exact .inl hbefore
    | inr hwritten =>
      rw [← hproducing.1] at hwritten
      exact .inr ⟨⟨_, rfl⟩, hwritten⟩
  all_goals first | exact .inl hitem | cases hitem

theorem submission_call {request : Request} (h : Edge t m pc (.call request) pc')
    (hj : pc'.submission = some (c, j))
    : j.accepted = 0 ∧ j.tasks = request.items m.history.nextId := by
  cases h
  all_goals cases hj <;> exact ⟨rfl, rfl⟩

end Edge

variable [Fintype C] [DecidableEq C]

namespace State

variable {s s' : State cfg C} {event : Event cfg C} {t : Thread cfg C} {c : Context} {j : Submission}

theorem sent_accepted (hs : (system cfg C).Reachable s)
    : ∀ t, ∀ item ∈ (s.pc t).sent, item ∈ s.memory.history.accepted := by
  apply reachable_induction _ _ _ hs
  . rintro (_ | _) item hitem
    all_goals cases hitem
  . intro s t choice op pc' m' hs h hedge heffect
    have hmono : ∀ item ∈ s.memory.history.accepted, item ∈ m'.history.accepted := by
      intro item hitem
      by_cases hop : ∃ n, op = .publish n
      . obtain ⟨n, rfl⟩ := hop
        cases heffect
        exact List.mem_append_left _ hitem
      . simp only [not_exists] at hop
        rwa [heffect.accepted_eq hop]
    apply forall_update (fun _ pc => ∀ item ∈ pc.sent, item ∈ m'.history.accepted)
    . intro item hitem
      cases hedge.sent ((counted hs).submitting t) ((counted hs).producing t) hitem with
      | inl hbefore => exact hmono item (h t item hbefore)
      | inr hwritten =>
        obtain ⟨⟨n, rfl⟩, hwritten⟩ := hwritten
        cases heffect
        exact List.mem_append_right _ hwritten
    . exact fun u _ item hitem => hmono item (h u item hitem)
  . intro s t _ h
    exact h

theorem unsent_not_accepted (hs : (system cfg C).Reachable s) {item : TaskItem}
    (hitem : item ∈ (s.pc t).unsent)
    : item ∉ s.memory.history.accepted := by
  intro haccepted
  have hone := (fresh hs item.id).1
  have hle := Count.le_sum (fun u => idCount item.id (s.pc u).unsent) t
  have hunsent : 0 < idCount item.id (s.pc t).unsent :=
    List.count_pos_iff.mpr (List.mem_map_of_mem hitem)
  have hpos : 0 < idCount item.id s.memory.history.accepted :=
    List.count_pos_iff.mpr (List.mem_map_of_mem haccepted)
  rw [State.sent, idCount_append] at hone
  omega

theorem unsent_eq (hs : (system cfg C).Reachable s) (hstopping : s.memory.isStopping = true)
    (hj : (s.pc t).submission = some (c, j))
    : (s.pc t).unsent = j.tasks.drop j.accepted := by
  have hproducing := (counted hs).producing t
  generalize s.pc t = pc at hj hproducing
  cases pc
  case slotWrite =>
    rw [hproducing.2.2] at hstopping
    cases hstopping
  all_goals cases hj <;> rfl

theorem submission_step {choice : Choice cfg C} (hs : (system cfg C).Reachable s)
    (hstopping : s.memory.isStopping = true) (hj : (s.pc t).submission = some (c, j))
    (h : (system cfg C).step s (.step t choice) = some s')
    : (∃ j', (s'.pc t).submission = some (c, j') ∧ j.Same j' ∧
          (s'.pc t).stepsLeft < (s.pc t).stepsLeft) ∨
        s'.pc t = .resting c (some j.outcome) := by
  have hcounted := counted hs
  obtain ⟨op, pc', m', hedge, heffect, rfl⟩ := step_of_pc h rfl
  have hself : Function.update s.pc t pc' t = pc' := Function.update_self _ _ _
  show (∃ j', (Function.update s.pc t pc' t).submission = some (c, j') ∧ j.Same j' ∧
      (Function.update s.pc t pc' t).stepsLeft < (s.pc t).stepsLeft) ∨
    Function.update s.pc t pc' t = .resting c (some j.outcome)
  rw [hself]
  apply hedge.submission hstopping (hcounted.submitting t) (hcounted.producing t)
    (observes_running hs t) hj
  rintro observed rfl
  cases heffect with
  | sleep _ heq => exact heq

theorem submission_enabled (hj : (s.pc t).submission = some (c, j))
    (hawake : s.memory.stateSleeper t = false)
    (hmutex : (∀ c j, s.pc t ≠ .producerLock c j) ∨ s.memory.owner .producer = none)
    : ∃ choice s', (system cfg C).step s (.step t choice) = some s' := by
  suffices h : ∃ choice, ((s.pc t).code.exec t s.memory choice).isSome = true by
    obtain ⟨choice, hsome⟩ := h
    obtain ⟨next, hnext⟩ := Option.isSome_iff_exists.mp hsome
    refine ⟨choice, { memory := next.1, pc := Function.update s.pc t next.2 }, ?_⟩
    simp only [system, State.step, hnext, Option.map_some]
  generalize s.pc t = pc at hj hmutex
  cases pc
  case producerLock c' j' =>
    have hfree := hmutex.resolve_left (fun h => h c' j' rfl)
    exact ⟨.go, by simp [Pc.code, Code.exec, hfree]⟩
  case workersNotify j' n =>
    rw [Pc.code]
    split
    . exact ⟨.go, rfl⟩
    . by_cases hsleeper : ∃ u, s.memory.stateSleeper u = true
      . obtain ⟨u, hu⟩ := hsleeper
        exact ⟨.unblock u, by simp [Code.exec, hu]⟩
      . exact ⟨.go, by simpa [Code.exec] using hsleeper⟩
  case spaceWait observed =>
    refine ⟨.go, ?_⟩
    simp only [Pc.code, Code.exec, hawake, Bool.false_eq_true, ↓reduceIte]
    split <;> rfl
  case slotWrite group => cases group <;> exact ⟨.go, rfl⟩
  all_goals first | exact ⟨.go, rfl⟩ | cases hj

end State

end Vosp.Pool
