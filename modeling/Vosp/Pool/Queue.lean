import Vosp.Lib.Fifo
import Vosp.Pool.Counted

/-!
This module shows that the ring buffer of a pool is a bounded first-in first-out queue, at every
step of every operation on it. The tasks that a thread has taken out of their slots stay at the
front of the abstract queue until the word is updated.
-/

namespace Vosp.Pool

variable {cfg : Config} {C : Type}

namespace Memory

structure Ringed (m : Memory cfg C) : Prop where
  slots : Ring.Holds cfg.queueCapacity m.tasks m.queueHead (m.history.queue ++ m.history.written)
  tail_eq : m.queueTail =
    Ring.advance cfg.queueCapacity m.queueHead (m.history.queue ++ m.history.written).length
  order : m.history.accepted = m.history.removed ++ m.history.leaving ++ m.history.queue
  not_faulted : m.faulted = false

namespace Ringed

variable {m : Memory cfg C} {item : TaskItem}

theorem head_eq (h : m.Ringed) (hpos : 0 < m.history.queue.length)
    : m.tasks m.queueHead = m.history.queue.head? := by
  rw [h.slots.head_eq]
  cases hqueue : m.history.queue with
  | nil => simp [hqueue] at hpos
  | cons => rfl

theorem isSome_head (h : m.Ringed) (hpos : 0 < m.history.queue.length)
    : (m.tasks m.queueHead).isSome = true := by
  rw [h.head_eq hpos]
  simpa using List.ne_nil_of_length_pos hpos

theorem init : ({} : Memory cfg C).Ringed where
  slots := .nil cfg.queueCapacity_pos
  tail_eq := (Ring.advance_zero cfg.queueCapacity_pos).symm
  order := rfl
  not_faulted := rfl

theorem emplace (h : m.Ringed)
    (hfits : m.history.queue.length + m.history.written.length < cfg.queueCapacity)
    : (m.emplace item).Ringed where
  slots := by
    simp only [Memory.emplace]
    rw [← List.append_assoc, h.tail_eq]
    apply h.slots.append
    simpa using hfits
  tail_eq := by
    simp only [Memory.emplace, nextQueueIndex]
    rw [← List.append_assoc, List.length_append, List.length_singleton, h.tail_eq,
      Ring.advance_succ h.slots.head_lt]
    simpa using hfits
  order := h.order
  not_faulted := h.not_faulted

theorem publish (h : m.Ringed) (count : Nat) : (m.publish count).Ringed where
  slots := by
    simp only [Memory.publish, List.append_nil]
    exact h.slots
  tail_eq := by
    simp only [Memory.publish, List.append_nil]
    exact h.tail_eq
  order := by
    simp only [Memory.publish]
    rw [h.order, List.append_assoc]
  not_faulted := h.not_faulted

theorem vacate (h : m.Ringed) (hhead : m.tasks m.queueHead = some item)
    (hpos : 0 < m.history.queue.length)
    : (m.vacate item).Ringed := by
  rw [h.head_eq hpos] at hhead
  obtain ⟨rest, hrest⟩ := List.head?_eq_some_iff.mp hhead
  have hslots := h.slots
  have htail := h.tail_eq
  have horder := h.order
  rw [hrest, List.cons_append] at hslots htail
  rw [hrest] at horder
  have hlength := hslots.length_le
  constructor
  case slots =>
    simp only [Memory.vacate, hrest, List.tail_cons]
    exact hslots.remove
  case tail_eq =>
    simp only [Memory.vacate, hrest, List.tail_cons, nextQueueIndex]
    rw [htail, List.length_cons, Ring.advance_next hslots.head_lt]
    exact hlength
  case order =>
    simp only [Memory.vacate, hrest, List.tail_cons]
    rw [horder]
    simp
  case not_faulted => exact h.not_faulted

theorem release (h : m.Ringed) (state : Word cfg)
    : Ringed { m with queueState := state, history := m.history.release } where
  slots := h.slots
  tail_eq := h.tail_eq
  order := by
    simp only [History.release, List.append_nil]
    exact h.order
  not_faulted := h.not_faulted

theorem resetTail (h : m.Ringed) (hqueue : m.history.queue = []) (hwritten : m.history.written = [])
    : Ringed { m with queueTail := m.queueHead } where
  slots := h.slots
  tail_eq := by
    simp only [hqueue, hwritten]
    exact (Ring.advance_zero h.slots.head_lt).symm
  order := h.order
  not_faulted := h.not_faulted

end Ringed

end Memory

def Pc.looksAtHead (pc : Pc cfg) : Bool :=
  match pc with
  | .headPeek _ | .scalarTake | .bulkPeek .. | .bulkTake .. | .cancelSlot _ _ _ (_ + 1) => true
  | _ => false

theorem Pc.queue_pos {pc : Pc cfg} {history : History} (h : pc.looksAtHead = true)
    (hclaiming : pc.Claiming) (hconsuming : pc.Consuming history)
    : 0 < history.queue.length := by
  cases pc
  case headPeek => exact Nat.lt_of_lt_of_le hconsuming.2.1 hconsuming.2.2
  case scalarTake => exact hconsuming.2
  case bulkPeek | bulkTake =>
    have := hclaiming.1
    have := hconsuming.2
    omega
  case cancelSlot remaining =>
    cases remaining with
    | zero => cases h
    | succ =>
      have := hconsuming.2
      omega
  all_goals cases h

theorem Edge.looks_of_fault {t : Thread cfg C} {m : Memory cfg C} {pc pc' : Pc cfg}
    (h : Edge t m pc .fault pc')
    : pc.looksAtHead = true ∧ m.tasks m.queueHead = none := by
  cases h with
  | cancelSlotFault hnone | headPeekFault hnone | scalarTakeFault hnone | bulkPeekFault hnone
  | bulkTakeFault hnone => exact ⟨rfl, hnone⟩

theorem Edge.ringed [DecidableEq C] {t : Thread cfg C} {choice : Choice cfg C} {op : Op cfg}
    {m m' : Memory cfg C} {pc pc' : Pc cfg} (h : Edge t m pc op pc') (heffect : Effect t choice op m m')
    (hclaiming : pc.Claiming) (hproducing : pc.Producing m) (hconsuming : pc.Consuming m.history)
    (hpending : m.pendingTasks = m.history.leaving.length + m.history.queue.length) (hm : m.Ringed)
    : m'.Ringed := by
  cases heffect
  case emplace =>
    cases h with
    | slotWrite =>
      obtain ⟨hwritten, hfits, -⟩ := hproducing
      apply hm.emplace
      rw [hwritten]
      simp only [List.length_cons] at hfits
      omega
  case publish => exact hm.publish _
  case vacate hhead =>
    apply hm.vacate hhead
    cases h
    all_goals exact Pc.queue_pos rfl hclaiming hconsuming
  case cancel hhead hcancel =>
    obtain ⟨_, _, rfl⟩ := Memory.cancel_eq hcancel
    cases h with
    | cancelSlot =>
      have hpos := Pc.queue_pos rfl hclaiming hconsuming
      exact Memory.Ringed.vacate ⟨hm.slots, hm.tail_eq, hm.order, hm.not_faulted⟩ hhead hpos
  case resetTail =>
    have hwritten : m.history.written = [] := by
      cases h
      all_goals exact hproducing rfl
    have hqueue : m.history.queue = [] := by
      cases h
      all_goals exact List.eq_nil_of_length_eq_zero hconsuming.2
    exact hm.resetTail hqueue hwritten
  case claim => exact hm.release _
  case cancelAll => exact hm.release _
  case complete hcomplete =>
    obtain ⟨_, _, rfl⟩ := Memory.complete_eq hcomplete
    exact ⟨hm.slots, hm.tail_eq, hm.order, hm.not_faulted⟩
  case fault =>
    obtain ⟨hlooks, hnone⟩ := h.looks_of_fault
    have hsome := hm.isSome_head (Pc.queue_pos hlooks hclaiming hconsuming)
    rw [hnone] at hsome
    cases hsome
  all_goals exact ⟨hm.slots, hm.tail_eq, hm.order, hm.not_faulted⟩

variable [Fintype C] [DecidableEq C]

theorem State.ringed {s : State cfg C} (hs : (system cfg C).Reachable s) : s.memory.Ringed := by
  apply reachable_induction _ _ _ hs
  . exact .init
  . intro s t choice op pc' m' hs h hedge heffect
    have hcounted := counted hs
    exact hedge.ringed heffect (hcounted.claiming t) (hcounted.producing t) (hcounted.consuming t)
      hcounted.pending_eq h
  . intro s t _ h
    exact ⟨h.slots, h.tail_eq, h.order, h.not_faulted⟩

end Vosp.Pool
