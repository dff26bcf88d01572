import Vosp.Pool.Refinement

/-!
This module shows that no task is accepted twice: every submission draws fresh numbers for its
tasks, and each of them is on its way into the queue, or in the queue, at most once.
-/

namespace Vosp.Pool

variable {cfg : Config} {C : Type}

def idCount (id : Nat) (items : List TaskItem) : Nat := (items.map (fun item => item.id)).count id

theorem idCount_nil (id : Nat) : idCount id [] = 0 := by
  rfl

theorem idCount_append (id : Nat) (items items' : List TaskItem)
    : idCount id (items ++ items') = idCount id items + idCount id items' := by
  simp [idCount]

theorem idCount_items (request : Request) (first id : Nat)
    : idCount id (request.items first) =
        if first ≤ id ∧ id < first + (request.items first).length then 1 else 0 := by
  have hsingle : ∀ item : TaskItem, item.id = first →
      idCount id [item] = if first ≤ id ∧ id < first + 1 then 1 else 0 := by
    intro item hitem
    simp only [idCount, List.map_cons, List.map_nil, List.count_singleton, hitem, beq_iff_eq]
    congr 1
    apply propext
    omega
  cases request
  case dispatchBulk count =>
    have hmap : ((Request.dispatchBulk count).items first).map (fun item => item.id) = List.range' first count := by
      simp only [Request.items, List.map_map, List.range'_eq_map_range]
      rfl
    rw [idCount, hmap, List.Nodup.count (List.nodup_range' 1)]
    simp [Request.items]
  case clearQueue | shutdown | wait | observe => simp [Request.items, idCount]
  all_goals exact hsingle _ rfl

def Pc.unsent (pc : Pc cfg) : List TaskItem :=
  match pc with
  | .spaceLoad _ j | .spaceEnlist _ j | .spaceObserve _ j | .spaceWait _ j _ | .spaceDelist _ j
  | .producerLock _ j | .producerLoad _ j | .producerReject _ j | .producerRetry _ j
  | .producerUnlock _ j _ | .workersWaiting _ j _ | .workersNotify _ j _ | .submitted _ j
  | .rejected _ j => j.tasks.drop j.accepted
  | .slotWrite _ j written _ => j.tasks.drop (j.accepted + written.length)
  | _ => []

namespace Edge

variable {t : Thread cfg C} {m : Memory cfg C} {pc pc' : Pc cfg} {op : Op cfg} {item : TaskItem}
  {request : Request}

theorem unsent_call (h : Edge t m pc (.call request) pc')
    : pc.unsent = [] ∧ (pc'.unsent = request.items m.history.nextId ∨ pc'.unsent = []) := by
  cases h
  case callEnqueue | callBulk => exact ⟨rfl, .inl rfl⟩
  all_goals exact ⟨rfl, .inr rfl⟩

theorem unsent_emplace (h : Edge t m pc (.emplace item) pc') (hpc : pc.Submitting)
    : pc.unsent = item :: pc'.unsent := by
  cases h with
  | slotWrite =>
    obtain ⟨rest, hrest⟩ := hpc.2.1
    simp only [Pc.unsent, List.length_append, List.length_singleton, ← Nat.add_assoc, ← List.drop_drop]
    rw [← hrest]
    simp

theorem unsent_eq (h : Edge t m pc op pc') (hcall : ∀ request, op ≠ .call request)
    (hemplace : ∀ item, op ≠ .emplace item)
    : pc'.unsent = pc.unsent ∨ pc'.unsent = [] := by
  cases h
  all_goals
    first
    | exact .inl rfl
    | exact .inr rfl
    | exact absurd rfl (hcall _)
    | exact absurd rfl (hemplace _)

end Edge

section

variable [DecidableEq C] {t : Thread cfg C} {choice : Choice cfg C} {op : Op cfg}
  {m m' : Memory cfg C}

theorem Effect.nextId_eq (h : Effect t choice op m m') (hcall : ∀ request, op ≠ .call request)
    : m'.history.nextId = m.history.nextId := by
  cases h
  case call => exact absurd rfl (hcall _)
  case cancel hcancel =>
    obtain ⟨_, _, rfl⟩ := Memory.cancel_eq hcancel
    rfl
  case complete hcomplete =>
    obtain ⟨_, _, rfl⟩ := Memory.complete_eq hcomplete
    rfl
  all_goals rfl

theorem Effect.sent_eq (h : Effect t choice op m m') (hemplace : ∀ item, op ≠ .emplace item)
    : m'.history.accepted ++ m'.history.written = m.history.accepted ++ m.history.written := by
  cases h
  case emplace => exact absurd rfl (hemplace _)
  case publish => exact List.append_nil _
  case cancel hcancel =>
    obtain ⟨_, _, rfl⟩ := Memory.cancel_eq hcancel
    rfl
  case complete hcomplete =>
    obtain ⟨_, _, rfl⟩ := Memory.complete_eq hcomplete
    rfl
  all_goals rfl

end

variable [Fintype C] [DecidableEq C]

def State.sent (s : State cfg C) (id : Nat) : Nat :=
  idCount id (s.memory.history.accepted ++ s.memory.history.written)
    + ∑ t, idCount id (s.pc t).unsent

def State.Fresh (s : State cfg C) : Prop :=
  ∀ id, s.sent id ≤ 1 ∧ (s.memory.history.nextId ≤ id → s.sent id = 0)

namespace State

variable {s : State cfg C}

theorem sent_thread {t : Thread cfg C} {choice : Choice cfg C} {op : Op cfg} {m' : Memory cfg C}
    {pc' : Pc cfg} (hsubmitting : (s.pc t).Submitting) (hedge : Edge t s.memory (s.pc t) op pc')
    (heffect : Effect t choice op s.memory m') (id : Nat)
    : s.memory.history.nextId ≤ m'.history.nextId ∧
        (State.sent { memory := m', pc := Function.update s.pc t pc' } id ≤ s.sent id ∨
          s.memory.history.nextId ≤ id ∧ id < m'.history.nextId ∧
            State.sent { memory := m', pc := Function.update s.pc t pc' } id ≤ s.sent id + 1) := by
  have hsum := Count.sum_update (fun pc : Pc cfg => idCount id pc.unsent) s.pc t pc'
  unfold sent
  simp only
  by_cases hcall : ∃ request, op = .call request
  . obtain ⟨request, rfl⟩ := hcall
    obtain ⟨hnone, hitems⟩ := hedge.unsent_call
    have hfirst := idCount_items request s.memory.history.nextId id
    have hle : idCount id pc'.unsent ≤ idCount id (request.items s.memory.history.nextId) := by
      cases hitems with
      | inl hitems => rw [hitems]
      | inr hempty => simp [hempty, idCount_nil]
    cases heffect with
    | call =>
      simp only [Memory.startCall, hnone, idCount_nil] at *
      split at hfirst
      . next hnew => exact ⟨by omega, .inr ⟨hnew.1, hnew.2, by omega⟩⟩
      . exact ⟨by omega, .inl (by omega)⟩
  . by_cases hemplace : ∃ item, op = .emplace item
    . obtain ⟨item, rfl⟩ := hemplace
      have hunsent := hedge.unsent_emplace hsubmitting
      cases heffect with
      | emplace =>
        have hcons := idCount_append id [item] pc'.unsent
        rw [List.singleton_append, ← hunsent] at hcons
        simp only [Memory.emplace, ← List.append_assoc]
        rw [idCount_append]
        exact ⟨Nat.le_refl _, .inl (by omega)⟩
    . simp only [not_exists] at hcall hemplace
      rw [heffect.nextId_eq hcall, heffect.sent_eq hemplace]
      have hle : idCount id pc'.unsent ≤ idCount id (s.pc t).unsent := by
        cases hedge.unsent_eq hcall hemplace with
        | inl heq => rw [heq]
        | inr hempty => simp [hempty, idCount_nil]
      exact ⟨Nat.le_refl _, .inl (by omega)⟩

theorem Fresh.thread (h : s.Fresh) {t : Thread cfg C} {choice : Choice cfg C} {op : Op cfg}
    {m' : Memory cfg C} {pc' : Pc cfg} (hsubmitting : (s.pc t).Submitting)
    (hedge : Edge t s.memory (s.pc t) op pc') (heffect : Effect t choice op s.memory m')
    : State.Fresh { memory := m', pc := Function.update s.pc t pc' } := by
  intro id
  obtain ⟨hone, hzero⟩ := h id
  obtain ⟨hnext, hsent⟩ := sent_thread hsubmitting hedge heffect id
  rcases hsent with hsame | ⟨hnew, hlt, hmore⟩
  . refine ⟨by omega, ?_⟩
    intro (hle : m'.history.nextId ≤ id)
    omega
  . refine ⟨by omega, ?_⟩
    intro (hle : m'.history.nextId ≤ id)
    omega

theorem fresh (hs : (system cfg C).Reachable s) : s.Fresh := by
  apply reachable_induction _ _ _ hs
  . intro id
    have hzero : (State.init : State cfg C).sent id = 0 := by
      have hunsent : ∀ t, ((State.init : State cfg C).pc t).unsent = [] := by
        rintro (_ | _)
        all_goals rfl
      simp only [sent, hunsent, idCount_nil, Finset.sum_const_zero]
      rfl
    exact ⟨by omega, fun _ => hzero⟩
  . intro s t choice op pc' m' hs h hedge heffect
    exact h.thread ((counted hs).submitting t) hedge heffect
  . intro s t _ h
    exact h

theorem accepted_nodup (hs : (system cfg C).Reachable s)
    : (s.memory.history.accepted.map (fun item => item.id)).Nodup := by
  apply List.nodup_iff_count_le_one.mpr
  intro id
  have hone := (fresh hs id).1
  rw [sent, idCount_append] at hone
  have hle : idCount id s.memory.history.accepted ≤ 1 := by omega
  exact hle

end State

end Vosp.Pool
