import Vosp.Pool.Word

/-!
This module contains the invariant behind `queue_state_`: in every reachable state the word counts
the tasks in the queue and the tasks that the workers have claimed. While a thread holds a queue
mutex the counts and the slots may differ, by the tasks it has written but not published or taken
out but not subtracted; `Pc.Producing` and `Pc.Consuming` say by how much.
-/

namespace Vosp.Pool

variable {cfg : Config} {C : Type}

def Pc.Producing (pc : Pc cfg) (m : Memory cfg C) : Prop :=
  match pc with
  | .slotWrite _ _ written group =>
    m.history.written = written ∧
      written.length + group.length + m.pendingTasks ≤ cfg.queueCapacity ∧ m.isStopping = false
  | pc => pc.holdsProducer = true → m.history.written = []

def Pc.Consuming (pc : Pc cfg) (history : History) : Prop :=
  match pc with
  | .headPeek state =>
    history.leaving = [] ∧ 0 < pendingFromState state ∧
      pendingFromState state ≤ history.queue.length
  | .scalarTake => history.leaving = [] ∧ 0 < history.queue.length
  | .bulkLoop limit batch | .bulkPeek limit batch | .bulkTake limit batch =>
    history.leaving = batch ∧ limit ≤ batch.length + history.queue.length
  | .claim batch => history.leaving = batch
  | .cancelSlot _ _ cancelled remaining =>
    history.leaving.length + remaining = cancelled ∧ history.queue.length = remaining
  | .cancelPublish _ _ cancelled => history.leaving.length = cancelled ∧ history.queue.length = 0
  | pc => pc.holdsConsumer = true → history.leaving = []

namespace Pc

variable {pc : Pc cfg} {m m' : Memory cfg C} {history history' : History}

theorem Producing.of_not_holds (h : pc.holds .producer = false) : pc.Producing m := by
  have h : pc.holdsProducer = false := h
  unfold Producing
  split
  . cases h
  . rw [h]
    nofun

theorem Consuming.of_not_holds (h : pc.holds .consumer = false) : pc.Consuming history := by
  have h : pc.holdsConsumer = false := h
  unfold Consuming
  split
  all_goals first | cases h | skip
  rw [h]
  nofun

theorem Producing.mono (h : pc.Producing m) (hwritten : m'.history.written = m.history.written)
    (hpending : m'.pendingTasks ≤ m.pendingTasks) (hstopping : m'.isStopping = m.isStopping)
    : pc.Producing m' := by
  cases pc
  case slotWrite =>
    obtain ⟨hwritten', hfits, hrunning⟩ := h
    refine ⟨?_, ?_, ?_⟩
    . rw [hwritten, hwritten']
    . omega
    . rw [hstopping, hrunning]
  all_goals
    intro hholds
    rw [hwritten]
    exact h hholds

theorem Consuming.mono (h : pc.Consuming history) (hleaving : history'.leaving = history.leaving)
    (hfront : history.queue <+: history'.queue)
    (heq : pc.holds .producer = true → history'.queue = history.queue)
    : pc.Consuming history' := by
  have hlength := hfront.length_le
  cases pc
  case cancelSlot | cancelPublish =>
    unfold Consuming
    rw [heq rfl, hleaving]
    exact h
  case headPeek => exact ⟨hleaving.trans h.1, h.2.1, Nat.le_trans h.2.2 hlength⟩
  case scalarTake => exact ⟨hleaving.trans h.1, Nat.lt_of_lt_of_le h.2 hlength⟩
  case bulkLoop | bulkPeek | bulkTake =>
    exact ⟨hleaving.trans h.1, Nat.le_trans h.2 (Nat.add_le_add_left hlength _)⟩
  case claim => exact hleaving.trans h
  all_goals
    intro hholds
    rw [hleaving]
    exact h hholds

end Pc

namespace Edge

variable [DecidableEq C] {t : Thread cfg C} {choice : Choice cfg C} {op : Op cfg}
  {m m' : Memory cfg C} {pc pc' : Pc cfg}

theorem lengths (h : Edge t m pc op pc') (heffect : Effect t choice op m m')
    (hclaiming : pc.Claiming) (hproducing : pc.Producing m) (hconsuming : pc.Consuming m.history)
    : m'.history.leaving.length + m'.history.queue.length + (op.claimed + op.dropped) =
        m.history.leaving.length + m.history.queue.length + op.published := by
  cases heffect
  case publish =>
    cases h with
    | slotPublish =>
      have hwritten := congrArg List.length hproducing.1
      simp [Memory.publish, Op.claimed, Op.dropped, Op.published]
      omega
  case vacate =>
    cases h
    all_goals
      simp [Memory.vacate, Op.claimed, Op.dropped, Op.published]
    . have := hconsuming.2
      omega
    . have := hconsuming.2
      have := hclaiming.1
      omega
  case claim =>
    cases h with
    | claim =>
      have hleaving := congrArg List.length hconsuming
      simp [Memory.claim, History.release, Op.claimed, Op.dropped, Op.published]
      omega
  case cancel hcancel =>
    obtain ⟨_, _, rfl⟩ := Memory.cancel_eq hcancel
    cases h with
    | cancelSlot =>
      have := hconsuming.2
      simp [Memory.vacate, Op.claimed, Op.dropped, Op.published]
      omega
  case cancelAll =>
    cases h with
    | cancelPublish =>
      have := hconsuming.1
      have := hconsuming.2
      simp [Memory.cancelAll, History.release, Op.claimed, Op.dropped, Op.published]
      omega
  case complete hcomplete =>
    obtain ⟨_, _, rfl⟩ := Memory.complete_eq hcomplete
    rfl
  all_goals rfl

theorem producing (h : Edge t m pc op pc') (heffect : Effect t choice op m m')
    (hpending : m.pendingTasks ≤ cfg.queueCapacity)
    (hfree : m.owner .producer = none → m.history.written = []) (hproducing : pc.Producing m)
    : pc'.Producing m' := by
  cases heffect
  all_goals cases h
  case read.producerLoad hrunning _ =>
    refine ⟨hproducing rfl, ?_, eq_false_of_ne_true hrunning⟩
    unfold Memory.pendingTasks at *
    simp only [List.length_nil, List.length_take]
    omega
  case lock.producerLock hnone => exact fun _ => hfree hnone
  case lock.signalLock hnone => exact fun _ => hfree hnone
  case lock.cancelLock first hnone =>
    cases first with
    | producer => exact fun _ => hfree hnone
    | consumer => exact Pc.Producing.of_not_holds rfl
  case lock.cancelTry first hnone =>
    cases first with
    | producer => exact fun _ => hproducing rfl
    | consumer => exact fun _ => hfree hnone
  case emplace.slotWrite =>
    obtain ⟨hwritten, hfits, hrunning⟩ := hproducing
    refine ⟨congrArg (· ++ _) hwritten, ?_, hrunning⟩
    change _ + m.pendingTasks ≤ _
    simp only [List.length_append, List.length_cons, List.length_nil] at *
    omega
  case publish.slotPublish => exact fun _ => rfl
  case cancel.cancelSlot hcancel _ _ _ _ =>
    obtain ⟨_, _, rfl⟩ := Memory.cancel_eq hcancel
    exact hproducing
  all_goals first | exact hproducing | exact Pc.Producing.of_not_holds rfl

theorem consuming (h : Edge t m pc op pc') (heffect : Effect t choice op m m')
    (hpending : m.pendingTasks = m.history.leaving.length + m.history.queue.length)
    (hfree : m.owner .consumer = none → m.history.leaving = [])
    (hconsuming : pc.Consuming m.history)
    : pc'.Consuming m'.history := by
  cases heffect
  all_goals cases h
  case read.cancelLoad =>
    have hleaving : m.history.leaving = [] := hconsuming rfl
    rw [hleaving] at hpending
    refine ⟨?_, ?_⟩
    . simp [hleaving]
    . exact (hpending.trans (Nat.zero_add _)).symm
  case read.headPeekBulk =>
    obtain ⟨hleaving, -, hqueue⟩ := hconsuming
    refine ⟨hleaving, ?_⟩
    simp
    omega
  case read.headPeek =>
    obtain ⟨hleaving, hpos, hqueue⟩ := hconsuming
    exact ⟨hleaving, Nat.lt_of_lt_of_le hpos hqueue⟩
  case read.bulkLoopEnd => exact hconsuming.1
  case read.bulkPeekEnd => exact hconsuming.1
  case lock.consumerLock hnone => exact fun _ => hfree hnone
  case lock.cancelLock first hnone =>
    cases first with
    | producer => exact Pc.Consuming.of_not_holds rfl
    | consumer => exact fun _ => hfree hnone
  case lock.cancelTry first hnone =>
    cases first with
    | producer => exact fun _ => hfree hnone
    | consumer => exact fun _ => hconsuming rfl
  case vacate.scalarTake => exact congrArg (· ++ _) hconsuming.1
  case vacate.bulkTake =>
    obtain ⟨hleaving, hlimit⟩ := hconsuming
    refine ⟨congrArg (· ++ _) hleaving, ?_⟩
    simp [Memory.vacate]
    omega
  case load.consumerLoad hne =>
    have hleaving : m.history.leaving = [] := hconsuming rfl
    rw [hleaving] at hpending
    refine ⟨hleaving, Nat.pos_of_ne_zero hne, ?_⟩
    exact Nat.le_of_eq (hpending.trans (Nat.zero_add _))
  case claim.claim => exact fun _ => rfl
  case cancel.cancelSlot hcancel _ _ _ _ =>
    obtain ⟨_, _, rfl⟩ := Memory.cancel_eq hcancel
    obtain ⟨hsum, hqueue⟩ := hconsuming
    refine ⟨?_, ?_⟩
    . simp [Memory.vacate]
      omega
    . simp [Memory.vacate, hqueue]
  case resetTail.cancelReset => exact ⟨hconsuming.1, hconsuming.2⟩
  case resetTail.cancelResetNone => exact fun _ => List.eq_nil_of_length_eq_zero hconsuming.1
  case cancelAll.cancelPublish => exact fun _ => rfl
  all_goals first | exact hconsuming | exact Pc.Consuming.of_not_holds rfl

omit [DecidableEq C] in
theorem published_le (h : Edge t m pc op pc') (hpending : m.pendingTasks ≤ cfg.queueCapacity)
    (hproducing : pc.Producing m)
    : m.pendingTasks + op.published ≤ cfg.queueCapacity := by
  cases h
  case slotPublish =>
    have hfits := hproducing.2.1
    simp only [List.length_nil, Op.published] at *
    omega
  all_goals exact hpending

omit [DecidableEq C] in
theorem written_eq_nil (h : Edge t m pc (.unlock .producer) pc') (hproducing : pc.Producing m)
    : m.history.written = [] := by
  have hholds := h.needs (decide_eq_true rfl)
  generalize hop : Op.unlock .producer = op at h
  cases h
  case cancelBackOff => exact hproducing hholds
  all_goals cases hop
  all_goals exact hproducing hholds

omit [DecidableEq C] in
theorem leaving_eq_nil (h : Edge t m pc (.unlock .consumer) pc') (hconsuming : pc.Consuming m.history)
    : m.history.leaving = [] := by
  have hholds := h.needs (decide_eq_true rfl)
  generalize hop : Op.unlock .consumer = op at h
  cases h
  case cancelBackOff => exact hconsuming hholds
  all_goals cases hop
  all_goals exact hconsuming hholds

end Edge

variable [Fintype C]

structure State.Counted (s : State cfg C) : Prop where
  word : Counts s.memory.queueState
    (s.memory.history.leaving.length + s.memory.history.queue.length) (∑ t, (s.pc t).active)
    s.memory.isStopping
  pending_le : s.memory.pendingTasks ≤ cfg.queueCapacity
  kind : ∀ t, (s.pc t).onWorker = t.isWorker
  claiming : ∀ t, (s.pc t).Claiming
  submitting : ∀ t, (s.pc t).Submitting
  producing : ∀ t, (s.pc t).Producing s.memory
  consuming : ∀ t, (s.pc t).Consuming s.memory.history
  written_eq : s.memory.owner .producer = none → s.memory.history.written = []
  leaving_eq : s.memory.owner .consumer = none → s.memory.history.leaving = []

namespace State

variable {s : State cfg C} {t : Thread cfg C} {choice : Choice cfg C} {op : Op cfg}
  {m' : Memory cfg C} {pc' : Pc cfg}

theorem active_le (hkind : ∀ t, (s.pc t).onWorker = t.isWorker) (hclaiming : ∀ t, (s.pc t).Claiming)
    : ∑ t, (s.pc t).active ≤ cfg.workerCount * min bulkClaimSize cfg.queueCapacity := by
  rw [← (Thread.equivSum cfg C).sum_comp, Fintype.sum_sum_type]
  have hclients : ∑ name, (s.pc (.client name)).active = 0 := by
    apply Count.sum_eq_zero_iff.mpr
    intro name
    exact Pc.active_eq_zero (hkind (.client name))
  have hworkers := Count.sum_le (fun i => (hclaiming (.worker i)).active_le)
  rw [Fintype.card_fin] at hworkers
  exact Nat.add_le_add hworkers (Nat.le_of_eq hclients)

theorem active_fits (cfg : Config)
    : cfg.workerCount * min bulkClaimSize cfg.queueCapacity ≤ maxWorkerCount * bulkClaimSize :=
  Nat.mul_le_mul cfg.workerCount_le (Nat.min_le_left _ _)

namespace Counted

theorem pending_eq (h : s.Counted)
    : s.memory.pendingTasks = s.memory.history.leaving.length + s.memory.history.queue.length :=
  h.word.pending_eq

theorem active_le (h : s.Counted) : ∑ t, (s.pc t).active ≤ maxWorkerCount * bulkClaimSize :=
  Nat.le_trans (State.active_le h.kind h.claiming) (active_fits cfg)

theorem active_eq (h : s.Counted) : s.memory.activeTasks = (∑ t, (s.pc t).active) % 2048 :=
  h.word.active_eq

theorem init : (State.init : State cfg C).Counted where
  word := by
    have hactive : ∑ t, ((State.init : State cfg C).pc t).active = 0 := by
      apply Count.sum_eq_zero_iff.mpr
      rintro (_ | _)
      all_goals rfl
    have hstopping : (State.init : State cfg C).memory.isStopping = false := Counts.zero.stopping_eq
    rw [hactive, hstopping]
    exact .zero
  pending_le := Nat.le_trans (Nat.le_of_eq Counts.zero.pending_eq) (Nat.zero_le _)
  kind := by rintro (_ | _) <;> rfl
  claiming := by rintro (_ | _) <;> nofun
  submitting := by rintro (_ | _) <;> trivial
  producing := by rintro (_ | _) <;> nofun
  consuming := by rintro (_ | _) <;> nofun
  written_eq _ := rfl
  leaving_eq _ := rfl

variable [DecidableEq C]

theorem word_step (h : s.Counted) (hedge : Edge t s.memory (s.pc t) op pc')
    (heffect : Effect t choice op s.memory m')
    (hactive : ∑ u, (Function.update s.pc t pc' u).active ≤ maxWorkerCount * bulkClaimSize)
    : Counts m'.queueState (m'.history.leaving.length + m'.history.queue.length)
        (∑ u, (Function.update s.pc t pc' u).active) (s.memory.isStopping || op.stops) := by
  have hpending := h.pending_eq
  have hlengths := hedge.lengths heffect (h.claiming t) (h.producing t) (h.consuming t)
  have hsum := Count.sum_update Pc.active s.pc t pc'
  have hown := hedge.active_add
  have hpublished := hedge.published_le h.pending_le (h.producing t)
  have hle := Count.le_sum (fun u => (s.pc u).active) t
  have hactive' := h.active_le
  have hcapacity := cfg.queueCapacity_le
  have hword := heffect.counts h.word
    (by
      rw [← hpending]
      simp only [maxQueueCapacity, countBits] at *
      omega)
    (by cases op.published_or_dropped <;> omega)
    (by cases op.claimed_or_finished <;> omega)
    (by cases op.claimed_or_finished <;> omega)
  have heq : m'.history.leaving.length + m'.history.queue.length
      = s.memory.history.leaving.length + s.memory.history.queue.length + op.published
        - (op.claimed + op.dropped) := by
    omega
  have heq' : ∑ u, (Function.update s.pc t pc' u).active
      = ∑ u, (s.pc u).active + op.claimed - op.finished := by
    omega
  rw [heq, heq']
  exact hword

theorem thread (hs : (system cfg C).Reachable s) (h : s.Counted)
    (hedge : Edge t s.memory (s.pc t) op pc') (heffect : Effect t choice op s.memory m')
    : State.Counted { memory := m', pc := Function.update s.pc t pc' } := by
  have hkind : ∀ u, (Function.update s.pc t pc' u).onWorker = u.isWorker := by
    apply forall_update (fun u pc => pc.onWorker = u.isWorker)
    . rw [hedge.onWorker_eq, h.kind]
    . exact fun u _ => h.kind u
  have hclaiming : ∀ u, (Function.update s.pc t pc' u).Claiming := by
    apply forall_update (fun _ pc => pc.Claiming)
    . exact hedge.claiming h.pending_le (h.claiming t)
    . exact fun u _ => h.claiming u
  have hactive := @State.active_le _ _ _ ⟨m', Function.update s.pc t pc'⟩ hkind hclaiming
  have hword := h.word_step hedge heffect (Nat.le_trans hactive (active_fits cfg))
  have hpublished := hedge.published_le h.pending_le (h.producing t)
  have hpending : m'.pendingTasks + (op.claimed + op.dropped) = s.memory.pendingTasks + op.published := by
    have hlengths := hedge.lengths heffect (h.claiming t) (h.producing t) (h.consuming t)
    have hpending' : m'.pendingTasks = _ := hword.pending_eq
    rw [hpending', h.pending_eq]
    exact hlengths
  have hstopping : m'.isStopping = (s.memory.isStopping || op.stops) := hword.stopping_eq
  constructor
  case word =>
    rw [hstopping]
    exact hword
  case pending_le =>
    show m'.pendingTasks ≤ _
    omega
  case kind => exact hkind
  case claiming => exact hclaiming
  case submitting =>
    apply forall_update (fun _ pc => pc.Submitting)
    . exact hedge.submitting (h.submitting t)
    . exact fun u _ => h.submitting u
  case producing =>
    apply forall_update (fun _ pc => pc.Producing m')
    . exact hedge.producing heffect h.pending_le h.written_eq (h.producing t)
    . intro u hu
      cases hholds : (s.pc u).holds .producer with
      | false => exact .of_not_holds hholds
      | true =>
        have hop := hedge.not_needs hs hholds hu
        apply (h.producing u).mono (heffect.written_eq hop)
        . rw [Op.published_eq hop] at hpending
          omega
        . rw [hstopping, Op.stops_eq hop, Bool.or_false]
  case consuming =>
    apply forall_update (fun _ pc => pc.Consuming m'.history)
    . exact hedge.consuming heffect h.pending_eq h.leaving_eq (h.consuming t)
    . intro u hu
      cases hholds : (s.pc u).holds .consumer with
      | false => exact .of_not_holds hholds
      | true =>
        have hop := hedge.not_needs hs hholds hu
        apply (h.consuming u).mono (heffect.leaving_eq hop) (heffect.queue_isPrefix hop)
        intro hproducer
        exact heffect.queue_eq hop (hedge.not_needs hs hproducer hu)
  case written_eq =>
    intro hnone
    cases hop : op.needs .producer with
    | false =>
      rw [heffect.written_eq hop]
      exact h.written_eq (heffect.owner_eq_none hop hnone)
    | true =>
      have howner := owner_of_holds hs (hedge.needs hop)
      cases heffect.eq_unlock howner hnone
      cases heffect
      exact hedge.written_eq_nil (h.producing t)
  case leaving_eq =>
    intro hnone
    cases hop : op.needs .consumer with
    | false =>
      rw [heffect.leaving_eq hop]
      exact h.leaving_eq (heffect.owner_eq_none hop hnone)
    | true =>
      have howner := owner_of_holds hs (hedge.needs hop)
      cases heffect.eq_unlock howner hnone
      cases heffect
      exact hedge.leaving_eq_nil (h.consuming t)

end Counted

theorem counted [DecidableEq C] {s : State cfg C} (hs : (system cfg C).Reachable s) : s.Counted := by
  apply reachable_induction .init _ _ hs
  . intro s t choice op pc' m' hs h hedge heffect
    exact h.thread hs hedge heffect
  . intro s t _ h
    exact { h with }

section

variable [DecidableEq C] (hs : (system cfg C).Reachable s) (hedge : Edge t s.memory (s.pc t) op pc')
  (heffect : Effect t choice op s.memory m')
include hs hedge heffect

theorem word_eq
    : Counts m'.queueState (m'.history.leaving.length + m'.history.queue.length)
        (∑ u, (Function.update s.pc t pc' u).active) (s.memory.isStopping || op.stops) :=
  (counted hs).word_step hedge heffect ((counted hs).thread hs hedge heffect).active_le

theorem isStopping_eq : m'.isStopping = (s.memory.isStopping || op.stops) :=
  (word_eq hs hedge heffect).stopping_eq

theorem pending_add : m'.pendingTasks + (op.claimed + op.dropped) = s.memory.pendingTasks + op.published := by
  have hcounted := counted hs
  have hpending : m'.pendingTasks = _ := (word_eq hs hedge heffect).pending_eq
  rw [hpending, hcounted.pending_eq]
  exact hedge.lengths heffect (hcounted.claiming t) (hcounted.producing t) (hcounted.consuming t)

end

end State

end Vosp.Pool
