import Vosp.Pool.Shutdown

/-!
This module follows one call of `dispatch_bulk` from the span of its tasks to the count that it returns.
The accepted tasks are in the queue in groups, each the work of one refill; the others are never moved
from.
-/

namespace Vosp.Pool

variable {cfg : Config} {C : Type}

def Pc.bulk (pc : Pc cfg) : Option (List TaskItem × Nat) :=
  match pc with
  | .resting _ (some (.dispatched tasks n)) => some (tasks, n)
  | pc =>
    match pc.submission with
    | some (_, j) => if j.bulk then some (j.tasks, j.accepted) else none
    | none => none

def Pc.refused (pc : Pc cfg) : Bool :=
  match pc with
  | .producerReject .. | .rejected .. => true
  | _ => false

structure BulkProgress (accepted tasks : List TaskItem) (n : Nat) : Prop where
  span : ∃ first, tasks = (Request.dispatchBulk tasks.length).items first
  le : n ≤ tasks.length
  placed : ∃ groups, groups.flatten = tasks.take n ∧ [] ∉ groups ∧ Placed groups accepted

namespace BulkProgress

variable {accepted tasks written : List TaskItem} {n : Nat}

theorem start (first count : Nat) : BulkProgress accepted ((Request.dispatchBulk count).items first) 0 where
  span := ⟨first, by simp [Request.items]⟩
  le := Nat.zero_le _
  placed := ⟨[], rfl, List.not_mem_nil, Placed.nil.skip accepted⟩

theorem skip (h : BulkProgress accepted tasks n) (rest : List TaskItem) : BulkProgress (accepted ++ rest) tasks n where
  span := h.span
  le := h.le
  placed := by
    obtain ⟨groups, hflatten, hnonempty, hplaced⟩ := h.placed
    exact ⟨groups, hflatten, hnonempty, hplaced.skip rest⟩

theorem refill (h : BulkProgress accepted tasks n) (hwritten : written <+: tasks.drop n) (hne : written ≠ [])
    : BulkProgress (accepted ++ written) tasks (n + written.length) where
  span := h.span
  le := by
    have hlength := hwritten.length_le
    rw [List.length_drop] at hlength
    have hle := h.le
    omega
  placed := by
    obtain ⟨groups, hflatten, hnonempty, hplaced⟩ := h.placed
    refine ⟨groups ++ [written], ?_, ?_, hplaced.place written⟩
    . rw [List.flatten_append, List.flatten_singleton, hflatten, List.take_add,
        ← List.prefix_iff_eq_take.mp hwritten]
    . simpa [hnonempty] using hne.symm

end BulkProgress

namespace Edge

variable {t : Thread cfg C} {m : Memory cfg C} {pc pc' : Pc cfg} {op : Op cfg} {tasks : List TaskItem}
  {n k : Nat} {c : Context}

theorem bulk_publish (h : Edge t m pc (.publish k) pc') (hpc : pc.Submitting) (hproducing : pc.Producing m)
    (hbulk : pc'.bulk = some (tasks, n))
    : ∃ n', pc.bulk = some (tasks, n') ∧ m.history.written <+: tasks.drop n' ∧ m.history.written ≠ [] ∧
        n = n' + m.history.written.length := by
  cases h with
  | @slotPublish c j written =>
    obtain ⟨hpos, hfront, -⟩ := hpc
    rw [List.append_nil] at hfront
    simp only [Pc.bulk, Pc.submission] at hbulk ⊢
    split at hbulk
    . next hj =>
      cases hbulk
      rw [if_pos hj, hproducing.1]
      exact ⟨j.accepted, rfl, hfront, List.ne_nil_of_length_pos hpos, rfl⟩
    . cases hbulk

theorem bulk_eq (h : Edge t m pc op pc') (hop : ∀ k, op ≠ .publish k) (hbulk : pc'.bulk = some (tasks, n))
    : pc.bulk = some (tasks, n) ∨
        n = 0 ∧ ∃ count, tasks = (Request.dispatchBulk count).items m.history.nextId := by
  cases h
  case slotPublish => exact absurd rfl (hop _)
  case callBulk count =>
    cases hbulk
    exact .inr ⟨rfl, count, rfl⟩
  case submittedAll hj _ | rejectedBulk hj =>
    cases hbulk
    simp only [Pc.bulk, Pc.submission]
    rw [if_pos hj]
    exact .inl rfl
  all_goals first | exact .inl hbulk | cases hbulk

theorem refused (h : Edge t m pc op pc') (hpc : pc'.refused = true) : pc.refused = true ∨ m.isStopping = true := by
  cases h
  case spaceLoadStopping hstopping | producerLoadStopping hstopping => exact .inr hstopping
  all_goals first | exact .inl hpc | cases hpc

theorem bulk_return (h : Edge t m pc op (.resting c (some (.dispatched tasks n))))
    : op = .read ∧ (n < tasks.length → pc.refused = true) ∧ ∀ item ∈ tasks.drop n, item ∈ pc.unsent := by
  cases h
  case submittedAll hall =>
    refine ⟨rfl, fun hlt => absurd hlt hall, ?_⟩
    intro item hitem
    exact hitem
  case rejectedBulk =>
    refine ⟨rfl, fun _ => rfl, ?_⟩
    intro item hitem
    exact hitem

end Edge

variable [Fintype C] [DecidableEq C]

namespace State

variable {s s' : State cfg C} {t : Thread cfg C} {tasks : List TaskItem} {n id : Nat} {c : Context}

theorem bulk_progress (hs : (system cfg C).Reachable s)
    : ∀ t tasks n, (s.pc t).bulk = some (tasks, n) → BulkProgress s.memory.history.accepted tasks n := by
  apply reachable_induction _ _ _ hs
  . rintro (_ | _) tasks n hbulk
    all_goals cases hbulk
  . intro s t choice op pc' m' hs h hedge heffect
    by_cases hop : ∃ k, op = .publish k
    . obtain ⟨k, rfl⟩ := hop
      cases heffect
      apply forall_update (fun _ pc => ∀ tasks n, pc.bulk = some (tasks, n) → BulkProgress _ tasks n)
      . intro tasks n hbulk
        obtain ⟨n', hbefore, hwritten, hne, rfl⟩ :=
          hedge.bulk_publish ((counted hs).submitting t) ((counted hs).producing t) hbulk
        exact (h t tasks n' hbefore).refill hwritten hne
      . exact fun u _ tasks n hbulk => (h u tasks n hbulk).skip _
    . simp only [not_exists] at hop
      simp only [heffect.accepted_eq hop]
      apply forall_update (fun _ pc => ∀ tasks n, pc.bulk = some (tasks, n) → BulkProgress _ tasks n)
      . intro tasks n hbulk
        rcases hedge.bulk_eq hop hbulk with hbefore | ⟨rfl, count, rfl⟩
        . exact h t tasks n hbefore
        . exact .start _ count
      . exact fun u _ => h u
  . intro s t _ h
    exact h

theorem stopping_of_refused (hs : (system cfg C).Reachable s)
    : ∀ t, (s.pc t).refused = true → s.memory.isStopping = true := by
  apply reachable_induction _ _ _ hs
  . rintro (_ | _) h
    all_goals cases h
  . intro s t choice op pc' m' hs h hedge heffect
    rw [isStopping_eq hs hedge heffect]
    apply forall_update (fun _ pc => pc.refused = true → (s.memory.isStopping || op.stops) = true)
    . intro hrefused
      rcases hedge.refused hrefused with hbefore | hstopping
      . rw [h t hbefore, Bool.true_or]
      . rw [hstopping, Bool.true_or]
    . intro u _ hrefused
      rw [h u hrefused, Bool.true_or]
  . intro s t _ h
    exact h

structure Unmoved (s : State cfg C) (id : Nat) : Prop where
  sent_eq : s.sent id = 0
  lt_nextId : id < s.memory.history.nextId

theorem Unmoved.step {event : Event cfg C} (hs : (system cfg C).Reachable s) (h : s.Unmoved id)
    (hstep : (system cfg C).step s event = some s')
    : s'.Unmoved id := by
  cases step_cases hstep with
  | spurious t => exact ⟨h.sent_eq, h.lt_nextId⟩
  | thread t choice hedge heffect =>
    obtain ⟨hnext, hsent⟩ := sent_thread ((counted hs).submitting t) hedge heffect id
    have hzero := h.sent_eq
    have hlt := h.lt_nextId
    rcases hsent with hsame | ⟨hnew, -⟩
    . exact ⟨by omega, Nat.lt_of_lt_of_le hlt hnext⟩
    . omega

omit [DecidableEq C] in
theorem Unmoved.not_mem {item : TaskItem} (h : s.Unmoved item.id)
    : item ∉ s.memory.history.accepted ++ s.memory.history.written := by
  intro hmem
  have hpos : 0 < idCount item.id (s.memory.history.accepted ++ s.memory.history.written) :=
    List.count_pos_iff.mpr (List.mem_map_of_mem hmem)
  have hzero := h.sent_eq
  rw [sent] at hzero
  omega

theorem Unmoved.of_return {choice : Choice cfg C} (hs : (system cfg C).Reachable s)
    (h : (system cfg C).step s (.step t choice) = some s')
    (hreturn : s'.pc t = .resting c (some (.dispatched tasks n))) {item : TaskItem} (hitem : item ∈ tasks.drop n)
    : s'.Unmoved item.id := by
  obtain ⟨op, pc', m', hedge, heffect, rfl⟩ := step_of_pc h rfl
  simp only [Function.update_self] at hreturn
  subst hreturn
  obtain ⟨rfl, -, hunsent⟩ := hedge.bulk_return
  cases heffect
  have hone := (fresh hs item.id).1
  have hold := (fresh hs item.id).2
  have hpos : 0 < idCount item.id (s.pc t).unsent := List.count_pos_iff.mpr (List.mem_map_of_mem (hunsent item hitem))
  have hsum := Count.sum_update (fun pc : Pc cfg => idCount item.id pc.unsent) s.pc t
    (.resting c (some (.dispatched tasks n)))
  have hle := Count.le_sum (fun u => idCount item.id (s.pc u).unsent) t
  have hempty : idCount item.id (Pc.resting c (some (.dispatched tasks n)) : Pc cfg).unsent = 0 := rfl
  constructor
  case sent_eq =>
    simp only [sent] at hone ⊢
    omega
  case lt_nextId =>
    simp only [sent] at hold ⊢
    omega

/--
What a call of `dispatch_bulk` has done when it returns.
-/
structure Dispatched (s : State cfg C) (tasks : List TaskItem) (n : Nat) : Prop where
  progress : BulkProgress s.memory.history.accepted tasks n
  inOrder : (tasks.take n).Sublist s.memory.history.accepted
  once : ∀ item ∈ tasks.take n, s.memory.history.accepted.count item = 1
  untouched : ∀ item ∈ tasks.drop n, ∀ events s', (system cfg C).run s events = some s' →
    item ∉ s'.memory.history.accepted ++ s'.memory.history.written
  complete : n = tasks.length ∨ s.memory.isStopping = true

theorem dispatched {choice : Choice cfg C} (hs : (system cfg C).Reachable s)
    (h : (system cfg C).step s (.step t choice) = some s')
    (hreturn : s'.pc t = .resting c (some (.dispatched tasks n)))
    : s'.Dispatched tasks n := by
  have hs' := hs.next h
  have hprogress : BulkProgress s'.memory.history.accepted tasks n := by
    apply bulk_progress hs' t
    rw [hreturn]
    rfl
  have hinOrder : (tasks.take n).Sublist s'.memory.history.accepted := by
    obtain ⟨groups, hflatten, -, hplaced⟩ := hprogress.placed
    rw [← hflatten]
    exact hplaced.sublist
  constructor
  case progress => exact hprogress
  case inOrder => exact hinOrder
  case once =>
    intro item hitem
    have hnodup := (accepted_nodup hs').of_map
    exact List.count_eq_one_of_mem hnodup (hinOrder.subset hitem)
  case untouched =>
    intro item hitem events s'' hrun
    have hunmoved : s''.Unmoved item.id := System.Reachable.run_invariant
      (fun s event s' hs h hstep => Unmoved.step hs h hstep) hs' (.of_return hs h hreturn hitem) events hrun
    exact hunmoved.not_mem
  case complete =>
    obtain ⟨op, pc', m', hedge, heffect, rfl⟩ := step_of_pc h rfl
    simp only [Function.update_self] at hreturn
    subst hreturn
    obtain ⟨rfl, hrefused, -⟩ := hedge.bulk_return
    cases heffect
    cases Nat.eq_or_lt_of_le hprogress.le with
    | inl hall => exact .inl hall
    | inr hlt =>
      have hstopping : s.memory.isStopping = true := stopping_of_refused hs t (hrefused hlt)
      exact .inr hstopping

end State

theorem dispatch_bulk_exact {s : State cfg C} (hs : (system cfg C).Reachable s)
    : s.memory.pendingTasks ≤ cfg.queueCapacity ∧
        ∀ t choice s' c tasks n, (system cfg C).step s (.step t choice) = some s' →
          s'.pc t = .resting c (some (.dispatched tasks n)) → s'.Dispatched tasks n :=
  ⟨(State.counted hs).pending_le, fun _ _ _ _ _ _ h hreturn => State.dispatched hs h hreturn⟩

def bulkRun : List (Event tinyConfig Bool) :=
  .step (.client true) (.call (.dispatchBulk 2)) :: Event.goes (.client true) 10 ++
    .step (.client false) (.call (.shutdown .drain)) :: Event.goes (.client false) 3 ++
    Event.goes (.client true) 4

def State.dispatchedOne (s : State tinyConfig Bool) : Bool :=
  match s.pc (.client true) with
  | .resting none (some (.dispatched tasks n)) => tasks == (Request.dispatchBulk 2).items 0 && n == 1
  | _ => false

theorem dispatch_bulk_exact_one_of_two
    : ∃ s s' : State tinyConfig Bool, s.memory.pendingTasks ≤ 1 ∧
        (system tinyConfig Bool).step s (.step (.client true) .go) = some s' ∧
        s'.Dispatched ((Request.dispatchBulk 2).items 0) 1 := by
  have hrun : ((system tinyConfig Bool).run State.init bulkRun).map (fun s =>
      ((system tinyConfig Bool).step s (.step (.client true) .go)).any State.dispatchedOne) = some true := by
    decide +kernel
  obtain ⟨s, hs, hp⟩ := System.exists_of_run _ hrun
  obtain ⟨s', hstep, hreturn⟩ := (Option.any_eq_true _ _).mp hp
  obtain ⟨hpending, hdispatched⟩ := dispatch_bulk_exact hs
  unfold State.dispatchedOne at hreturn
  split at hreturn
  . next tasks n hpc =>
    simp only [Bool.and_eq_true, beq_iff_eq] at hreturn
    obtain ⟨rfl, rfl⟩ := hreturn
    exact ⟨s, s', hpending, hstep, hdispatched _ _ _ _ _ _ hstep hpc⟩
  . cases hreturn

end Vosp.Pool
