import Vosp.Pool.Locks

/-!
This module contains what a program point says about its thread: whether it is a worker, which tasks
it has claimed, and the bounds that hold at it whatever the other threads do.
-/

namespace Vosp.Pool

variable {cfg : Config} {C : Type}

namespace Pc

def frame (pc : Pc cfg) : Option Frame :=
  match pc with
  | .resting c _ | .spaceLoad c _ | .spaceEnlist c _ | .spaceObserve c _ | .spaceWait c _ _
  | .spaceDelist c _ | .producerLock c _ | .producerLoad c _ | .producerReject c _
  | .producerRetry c _ | .slotWrite c _ _ _ | .producerUnlock c _ _ | .workersWaiting c _ _
  | .workersNotify c _ _ | .submitted c _ | .rejected c _ | .idleCheck c | .idleEnlist c
  | .epochLoad c | .idleRecheck c _ | .epochWait c _ | .idleDelist c | .observe c _ | .cancelLock c _ _
  | .cancelTry c _ _ | .cancelBackOff c _ _ | .cancelLoad c _ | .cancelSlot c _ _ _
  | .cancelPublish c _ _ | .cancelActive c _ _ | .cancelIdle c _ _ | .cancelEpoch c _ _
  | .cancelEpochNotify c _ _ | .cancelNotify c _ _ | .cancelUnlockProducer c _ _
  | .cancelUnlockConsumer c _ _ | .signalLock c _ | .signalStop c _ | .signalUnlock c _
  | .workersLock c | .workersRead c | .workersStop c _ | .signalNotify c _ | .signalReturn c _ => c
  | .complete f _ => some f
  | _ => none

def onWorker (pc : Pc cfg) : Bool :=
  match pc with
  | .stateLoad | .workerEnlist | .workerObserve | .workerWait _ | .workerDelist | .workerExit | .exited
  | .consumerLock | .consumerLoad | .consumerRetry | .headPeek _ | .scalarTake | .bulkLoop ..
  | .bulkPeek .. | .bulkTake .. | .claim _ | .consumerUnlock _ | .producersWaiting _
  | .producersNotify _ | .executeNext .. | .finish _ | .finishIdle | .finishEpoch
  | .finishEpochNotify => true
  | pc => pc.frame.isSome

def active (pc : Pc cfg) : Nat :=
  match pc with
  | .consumerUnlock batch | .producersWaiting batch | .producersNotify batch => batch.length
  | .executeNext _ claimed | .finish claimed => claimed
  | pc =>
    match pc.frame with
    | some f => f.claimed
    | none => 0

def hands (pc : Pc cfg) : List TaskItem :=
  match pc with
  | .bulkLoop _ batch | .bulkPeek _ batch | .bulkTake _ batch | .claim batch | .consumerUnlock batch
  | .producersWaiting batch | .producersNotify batch | .executeNext batch _ => batch
  | pc =>
    match pc.frame with
    | some f => f.item :: f.rest
    | none => []

end Pc

def Frame.Bounded (cfg : Config) (f : Frame) : Prop :=
  f.rest.length < f.claimed ∧ f.claimed ≤ min bulkClaimSize cfg.queueCapacity

def Submission.Open (j : Submission) : Prop :=
  j.accepted < j.tasks.length ∧ (j.bulk = false → j.tasks.length = 1)

def Pc.Claiming (pc : Pc cfg) : Prop :=
  match pc with
  | .headPeek state => pendingFromState state ≤ cfg.queueCapacity
  | .bulkLoop limit batch => batch.length ≤ limit ∧ limit ≤ min bulkClaimSize cfg.queueCapacity
  | .bulkPeek limit batch | .bulkTake limit batch =>
    batch.length < limit ∧ limit ≤ min bulkClaimSize cfg.queueCapacity
  | .claim batch | .consumerUnlock batch | .producersWaiting batch | .producersNotify batch =>
    batch.length ≤ min bulkClaimSize cfg.queueCapacity
  | .executeNext batch claimed =>
    batch.length ≤ claimed ∧ claimed ≤ min bulkClaimSize cfg.queueCapacity
  | .finish claimed => claimed ≤ min bulkClaimSize cfg.queueCapacity
  | pc => ∀ f ∈ pc.frame, f.Bounded cfg

def Pc.Submitting (pc : Pc cfg) : Prop :=
  match pc with
  | .spaceLoad _ j | .spaceEnlist _ j | .spaceObserve _ j | .spaceWait _ j _ | .spaceDelist _ j
  | .producerLock _ j | .producerLoad _ j | .producerReject _ j | .producerRetry _ j
  | .rejected _ j => j.Open
  | .slotWrite _ j written group =>
    0 < written.length + group.length ∧ written ++ group <+: j.tasks.drop j.accepted ∧
      (j.bulk = false → j.tasks.length = 1)
  | .producerUnlock _ j enqueued | .workersWaiting _ j enqueued | .workersNotify _ j enqueued =>
    0 < enqueued ∧ enqueued ≤ j.accepted ∧ j.accepted ≤ j.tasks.length ∧
      (j.bulk = false → j.tasks.length = 1)
  | .submitted _ j => j.bulk = false → j.tasks.length = 1 ∧ j.accepted = 1
  | _ => True

namespace Pc

variable {pc : Pc cfg}

theorem active_eq_zero (h : pc.onWorker = false) : pc.active = 0 := by
  cases pc
  all_goals
    first
    | rfl
    | cases h
    | cases ‹Context› <;> first | rfl | cases h

theorem hands_eq_nil (h : pc.onWorker = false) : pc.hands = [] := by
  cases pc
  all_goals
    first
    | rfl
    | cases h
    | cases ‹Context› <;> first | rfl | cases h

theorem Claiming.active_le (h : pc.Claiming) : pc.active ≤ min bulkClaimSize cfg.queueCapacity := by
  cases pc
  case executeNext => exact h.2
  all_goals
    first
    | exact h
    | exact Nat.zero_le _
    | exact (h _ rfl).2
    | cases ‹Context› <;> first | exact Nat.zero_le _ | exact (h _ rfl).2

end Pc

def Op.claimed (op : Op cfg) : Nat :=
  match op with
  | .claim count => count
  | _ => 0

def Op.finished (op : Op cfg) : Nat :=
  match op with
  | .finish count => count
  | _ => 0

def Op.handles (op : Op cfg) : Bool :=
  match op with
  | .vacate _ | .complete .. => true
  | _ => false

theorem Op.claimed_or_finished (op : Op cfg) : op.claimed = 0 ∨ op.finished = 0 := by
  cases op
  case claim => exact .inr rfl
  all_goals exact .inl rfl

namespace Edge

variable {t : Thread cfg C} {m : Memory cfg C} {pc pc' : Pc cfg} {op : Op cfg}

theorem onWorker_eq (h : Edge t m pc op pc') : pc'.onWorker = pc.onWorker := by
  cases h
  all_goals rfl

theorem active_add (h : Edge t m pc op pc') : pc'.active + op.finished = pc.active + op.claimed := by
  cases h
  all_goals first | rfl | exact Nat.add_comm _ _

theorem hands_complete (h : Edge t m pc (.complete item outcome) pc')
    : pc.hands = item :: pc'.hands := by
  generalize hop : Op.complete item outcome = op at h
  cases h
  all_goals cases hop
  rfl

theorem hands_vacate (h : Edge t m pc (.vacate item) pc') : pc'.hands = pc.hands ++ [item] := by
  generalize hop : Op.vacate item = op at h
  cases h
  all_goals cases hop
  all_goals rfl

theorem hands_eq (h : Edge t m pc op pc') (hop : op.handles = false) : pc'.hands = pc.hands := by
  cases h
  all_goals first | rfl | cases hop

theorem claiming (h : Edge t m pc op pc') (hm : m.pendingTasks ≤ cfg.queueCapacity)
    (hpc : pc.Claiming)
    : pc'.Claiming := by
  have hsize : 0 < bulkClaimSize := by decide
  have hcapacity := cfg.queueCapacity_pos
  cases h
  case consumerLoad => exact hm
  case headPeekBulk item state _ _ =>
    have hstate : pendingFromState state ≤ cfg.queueCapacity := hpc
    simp only [Pc.Claiming, List.length_nil]
    omega
  case scalarTake =>
    simp only [Pc.Claiming, List.length_singleton]
    omega
  case bulkLoop hlt => exact ⟨hlt, hpc.2⟩
  case bulkLoopEnd => exact Nat.le_trans hpc.1 hpc.2
  case bulkPeekEnd => exact Nat.le_trans (Nat.le_of_lt hpc.1) hpc.2
  case bulkTake =>
    simp only [Pc.Claiming, List.length_append, List.length_singleton]
    exact ⟨hpc.1, hpc.2⟩
  case producersWaitingNone => exact ⟨Nat.le_refl _, hpc⟩
  case producersNotify => exact ⟨Nat.le_refl _, hpc⟩
  case executeNext =>
    intro f hf
    cases hf
    exact hpc
  case executeEnd => exact hpc.2
  case complete f _ =>
    have hf := hpc f rfl
    exact ⟨Nat.le_of_lt hf.1, hf.2⟩
  all_goals first | exact hpc | trivial | rintro _ ⟨⟩

theorem submitting (h : Edge t m pc op pc') (hpc : pc.Submitting) : pc'.Submitting := by
  cases h
  case callEnqueue hscalar =>
    have hlength := Request.length_items hscalar m.history.nextId
    simp only [Pc.Submitting, Submission.Open]
    omega
  case callBulk => nofun
  case producerLoad j _ havailable =>
    refine ⟨?_, ?_, hpc.2⟩
    . have hopen : j.accepted < j.tasks.length := hpc.1
      simp only [List.length_nil, List.length_take, List.length_drop]
      omega
    . exact List.take_prefix _ _
  case slotWrite =>
    refine ⟨?_, ?_, hpc.2.2⟩
    . simp
    . rw [List.append_assoc]
      exact hpc.2.1
  case slotPublish j written =>
    obtain ⟨hpos, hfront, hscalar⟩ := hpc
    have hlength := hfront.length_le
    simp at hpos hlength
    refine ⟨hpos, ?_, ?_, hscalar⟩
    . simp
    . simp
      omega
  case workersWaitingNone | workersNotifyAll | workersNotifyOne =>
    intro hscalar
    have := hpc.2.2.2 hscalar
    have := hpc.1
    have := hpc.2.1
    have := hpc.2.2.1
    omega
  case submittedMore hbulk hmore =>
    exact ⟨hmore, by simp [hbulk]⟩
  all_goals first | exact hpc | trivial

end Edge

end Vosp.Pool
