import Vosp.Pool.Solo

/-!
This module says what `active_tasks`, `pending_tasks` and `is_idle` tell about the tasks of a pool.
The active count is read through a mask of `countBits` bits, but a worker can hold a whole chunk of
bulk tasks. So `wait` is sound for exactly those pools whose chunks fit into the mask together.
-/

namespace Vosp.Pool

variable {cfg : Config} {C : Type}

theorem Pc.length_hands_le {pc : Pc cfg} {history : History} (hclaiming : pc.Claiming)
    (hconsuming : pc.Consuming history)
    : pc.hands.length ≤ pc.active + history.leaving.length := by
  cases pc
  case bulkLoop | bulkPeek | bulkTake =>
    rw [hconsuming.1]
    exact Nat.le_add_left _ _
  case claim =>
    have hleaving : history.leaving = _ := hconsuming
    rw [hleaving]
    exact Nat.le_add_left _ _
  case executeNext => exact Nat.le_trans hclaiming.1 (Nat.le_add_right _ _)
  case complete f _ => exact Nat.le_trans (hclaiming f rfl).1 (Nat.le_add_right _ _)
  all_goals
    first
    | exact Nat.zero_le _
    | exact Nat.le_add_right _ _
    | cases ‹Context›
      . exact Nat.zero_le _
      . exact Nat.le_trans (hclaiming _ rfl).1 (Nat.le_add_right _ _)

variable [Fintype C] [DecidableEq C]

structure State.Idle (s : State cfg C) : Prop where
  queue_eq : s.memory.history.leaving ++ s.memory.history.queue = []
  hands_eq : ∀ t, (s.pc t).hands = []
  active_eq : ∀ t, (s.pc t).active = 0

structure State.IdleSound (s : State cfg C) : Prop where
  active_eq : s.memory.activeTasks = ∑ t, (s.pc t).active
  pending_eq : s.memory.pendingTasks = (s.memory.history.leaving ++ s.memory.history.queue).length
  idle : isIdle s.memory.queueState = true → s.Idle
  wait : ∀ t choice c s', s.pc t = .idleCheck c → (system cfg C).step s (.step t choice) = some s' →
    s'.pc t = .resting c (some .waited) → s.Idle

namespace State

variable {s : State cfg C}

theorem idleSound_of_active_eq (hs : (system cfg C).Reachable s)
    (hactive : s.memory.activeTasks = ∑ t, (s.pc t).active)
    : s.IdleSound := by
  have hcounted := counted hs
  have hidle : isIdle s.memory.queueState = true → s.Idle := by
    intro hidle
    simp only [isIdle, Bool.and_eq_true, beq_iff_eq] at hidle
    have hlength := hcounted.pending_eq.symm.trans hidle.1
    have hzero : ∀ t, (s.pc t).active = 0 := by
      apply Count.sum_eq_zero_iff.mp
      exact hactive.symm.trans hidle.2
    refine ⟨?_, ?_, hzero⟩
    . apply List.eq_nil_of_length_eq_zero
      rw [List.length_append, hlength]
    . intro t
      have hhands := Pc.length_hands_le (hcounted.claiming t) (hcounted.consuming t)
      rw [hzero t] at hhands
      apply List.eq_nil_of_length_eq_zero
      omega
  constructor
  case active_eq => exact hactive
  case pending_eq => rw [hcounted.pending_eq, List.length_append]
  case idle => exact hidle
  case wait =>
    intro t choice c s' hpc hstep hwaited
    obtain ⟨op, pc', m', hedge, heffect, rfl⟩ := step_of_pc hstep hpc
    have hpc' : pc' = .resting c (some .waited) := by simpa using hwaited
    subst hpc'
    cases hedge with
    | idleCheck h => exact hidle h

structure Busy (s : State cfg C) (name : C) (k : Nat) (queue : List TaskItem) : Prop where
  reachable : (system cfg C).Reachable s
  owner_eq : s.memory.owner = fun _ => none
  waiting_eq : s.memory.waiting = fun _ => 0
  running : s.memory.isStopping = false
  leaving_eq : s.memory.history.leaving = []
  queue_eq : s.memory.history.queue = queue
  client : ∃ last, s.pc (.client name) = .resting none last
  worker : ∀ i, if i.val < k then (s.pc (.worker i)).active = min bulkClaimSize cfg.queueCapacity
    else s.pc (.worker i) = .stateLoad

namespace Busy

variable {name : C} {k : Nat} {queue : List TaskItem}

theorem init : (State.init : State cfg C).Busy name 0 [] where
  reachable := .init
  owner_eq := rfl
  waiting_eq := rfl
  running := Counts.zero.stopping_eq
  leaving_eq := rfl
  queue_eq := rfl
  client := ⟨none, rfl⟩
  worker i := by
    rw [if_neg (Nat.not_lt_zero _)]
    rfl

theorem counts {s : State cfg C} (h : s.Busy name k queue)
    : Counts s.memory.queueState queue.length (∑ t, (s.pc t).active) false := by
  have hword := (counted h.reachable).word
  rwa [h.leaving_eq, h.queue_eq, h.running, List.length_nil, Nat.zero_add] at hword

theorem fill {s : State cfg C} (h : s.Busy name k [])
    : ∃ (s' : State cfg C) (items : List TaskItem), s'.Busy name k items ∧
        items.length = min bulkClaimSize cfg.queueCapacity ∧ ∀ item ∈ items, item.bulk = true := by
  have hs := h.reachable
  have hcapacity := cfg.queueCapacity_le
  have hcounts := h.counts
  have hwritten := (counted hs).written_eq (congrFun h.owner_eq _)
  have hsize : 0 < min bulkClaimSize cfg.queueCapacity := by
    have := cfg.queueCapacity_pos
    simp only [bulkClaimSize]
    omega
  obtain ⟨n, hn⟩ : ∃ n, n = min bulkClaimSize cfg.queueCapacity := ⟨_, rfl⟩
  rw [← hn] at hsize ⊢
  obtain ⟨last, hlast⟩ := h.client
  obtain ⟨m, last', hsolo, hsame, hword, hleaving, hqueue⟩ :=
    @Solo.dispatchBulk cfg C _ _ (.client name) s.memory none n last hsize (by omega) hcounts.pending_eq
      hcounts.stopping_eq (congrFun h.owner_eq _) (congrFun h.waiting_eq _)
  rw [h.queue_eq, hwritten, List.nil_append, List.nil_append] at hqueue
  rw [← hlast] at hsolo
  have hfits : 0 + n < 2 ^ countBits := by
    simp only [maxQueueCapacity, countBits] at *
    omega
  have hadd := hcounts.publish hfits (counted hs).active_le
  rw [← hword] at hadd
  refine ⟨⟨m, Function.update s.pc (.client name) (.resting none last')⟩, _,
    ⟨hsolo.reachable hs, ?_, ?_, hadd.stopping_eq, ?_, hqueue, ⟨last', ?_⟩, ?_⟩, ?_, ?_⟩
  . exact hsame.owner.trans h.owner_eq
  . exact hsame.waiting.trans h.waiting_eq
  . exact hleaving.trans h.leaving_eq
  . exact Function.update_self _ _ _
  . intro i
    have hpc : Function.update s.pc (.client name) (.resting none last') (.worker i) = s.pc (.worker i) :=
      Function.update_of_ne (by simp) _ _
    simp only [hpc]
    exact h.worker i
  . simp [Request.items]
  . simp [Request.items]

theorem claim {s : State cfg C} (h : s.Busy name k queue) (hk : k < cfg.workerCount)
    (hlength : queue.length = min bulkClaimSize cfg.queueCapacity)
    (hbulk : ∀ item ∈ queue, item.bulk = true)
    : ∃ s' : State cfg C, s'.Busy name (k + 1) [] := by
  have hs := h.reachable
  have hcounts := h.counts
  let t : Thread cfg C := .worker ⟨k, hk⟩
  have hpc : s.pc t = .stateLoad := by
    have hworker := h.worker ⟨k, hk⟩
    rwa [if_neg (Nat.lt_irrefl k)] at hworker
  have hpos : 0 < queue.length := by
    have := cfg.queueCapacity_pos
    simp only [bulkClaimSize] at hlength
    omega
  have hclient : Thread.client name ≠ t := by simp [t]
  obtain ⟨item, rest, hcons⟩ := List.exists_cons_of_length_pos hpos
  obtain ⟨m, hsolo, hsame, hword, hleaving, hqueue⟩ :=
    @Solo.claimAll cfg C _ _ t s.memory queue item rest (ringed hs) h.queue_eq hcons hbulk (by omega)
      hcounts.pending_eq (congrFun h.owner_eq _) (congrFun h.waiting_eq _)
  rw [← hpc] at hsolo
  have hs' : (system cfg C).Reachable ⟨m, Function.update s.pc t _⟩ := hsolo.reachable hs
  have hsum := Count.sum_update Pc.active s.pc t (.resting (some ⟨item, rest, queue.length⟩) none)
  have hactive := (counted hs').active_le
  rw [hpc] at hsum
  have hmove := hcounts.claim (Nat.le_refl queue.length) (hsum ▸ hactive)
  refine ⟨_, hs', ?_, ?_, ?_, hleaving, hqueue, ?_, ?_⟩
  . exact hsame.owner.trans h.owner_eq
  . exact hsame.waiting.trans h.waiting_eq
  . rw [← hword] at hmove
    exact hmove.stopping_eq
  . obtain ⟨last, hlast⟩ := h.client
    refine ⟨last, ?_⟩
    simp only [Function.update_of_ne hclient]
    exact hlast
  . intro i
    have hworker := h.worker i
    by_cases hi : i.val = k
    . have heq : t = .worker i := by simp [t, ← hi]
      have hself : Function.update s.pc t (.resting (some ⟨item, rest, queue.length⟩) none) (.worker i)
          = .resting (some ⟨item, rest, queue.length⟩) none := by
        rw [heq, Function.update_self]
      simp only [hself]
      rw [if_pos (by omega)]
      exact hlength
    . have hne : Thread.worker i ≠ t := by
        simp only [t, ne_eq, Thread.worker.injEq, Fin.ext_iff]
        exact hi
      simp only [Function.update_of_ne hne]
      by_cases hlt : i.val < k
      . rw [if_pos hlt] at hworker
        rwa [if_pos (by omega)]
      . rw [if_neg hlt] at hworker
        rwa [if_neg (by omega)]

end Busy

theorem exists_busy (cfg : Config) (name : C) : ∃ s : State cfg C, s.Busy name cfg.workerCount [] := by
  suffices h : ∀ k, k ≤ cfg.workerCount → ∃ s : State cfg C, s.Busy name k [] from h _ (Nat.le_refl _)
  intro k
  induction k with
  | zero => exact fun _ => ⟨_, .init⟩
  | succ k ih =>
    intro hk
    obtain ⟨s, hs⟩ := ih (Nat.le_of_succ_le hk)
    obtain ⟨s', items, hs', hlength, hbulk⟩ := hs.fill
    exact hs'.claim hk hlength hbulk

theorem Busy.active_eq {name : C} (h : s.Busy name cfg.workerCount [])
    : ∑ t, (s.pc t).active = cfg.workerCount * min bulkClaimSize cfg.queueCapacity := by
  rw [← (Thread.equivSum cfg C).sum_comp, Fintype.sum_sum_type]
  have hclients : ∑ name, (s.pc (.client name)).active = 0 := by
    apply Count.sum_eq_zero_iff.mpr
    intro name
    exact Pc.active_eq_zero ((counted h.reachable).kind (.client name))
  have hworkers : ∀ i, (s.pc (.worker i)).active = min bulkClaimSize cfg.queueCapacity := by
    intro i
    have hworker := h.worker i
    rwa [if_pos i.isLt] at hworker
  calc ∑ i, (s.pc (.worker i)).active + ∑ name, (s.pc (.client name)).active
      = ∑ _i : Fin cfg.workerCount, min bulkClaimSize cfg.queueCapacity + 0 := by
        rw [hclients]
        simp only [hworkers]
    _ = cfg.workerCount * min bulkClaimSize cfg.queueCapacity := by simp

end State

theorem idle_sound_iff (name : C)
    : (∀ s, (system cfg C).Reachable s → s.IdleSound) ↔
        cfg.workerCount * min bulkClaimSize cfg.queueCapacity < 2 ^ countBits := by
  constructor
  . intro hall
    obtain ⟨s, hbusy⟩ := State.exists_busy cfg name
    have hsound := (hall s hbusy.reachable).active_eq
    rw [(State.counted hbusy.reachable).active_eq, hbusy.active_eq] at hsound
    simp only [countBits]
    omega
  . intro hlt s hs
    have hcounted := State.counted hs
    apply State.idleSound_of_active_eq hs
    have hle := State.active_le hcounted.kind hcounted.claiming
    rw [hcounted.active_eq]
    simp only [countBits] at hlt
    omega

def wideConfig : Config := .word64 128 16 (by decide) (by decide)

-- `wait` returns although 128 workers hold 16 claimed tasks each.
theorem wait_returns_early
    : ∃ s : State wideConfig Unit, (system wideConfig Unit).Reachable s ∧
        s.pc (.client ()) = .resting none (some .waited) ∧ ∑ t, (s.pc t).active = 2048 ∧
        ¬ s.IdleSound := by
  obtain ⟨s, hbusy⟩ := State.exists_busy wideConfig ()
  have hactive : ∑ t, (s.pc t).active = 2048 := hbusy.active_eq
  have hcounts := hbusy.counts
  rw [hactive] at hcounts
  obtain ⟨last, hlast⟩ := hbusy.client
  have hidle : isIdle s.memory.queueState = true := by
    simp [isIdle, hcounts.pending_eq, hcounts.active_eq]
  have hcall : Solo (.client ()) s.memory (.resting none last) (s.memory.startCall .wait)
      (.idleCheck none) :=
    .step (.call .wait) .refl rfl
  have hwait : Solo (.client ()) s.memory (.resting none last) (s.memory.startCall .wait)
      (.resting none (some .waited)) := by
    apply hcall.go
    simp [Pc.code, Code.exec, Memory.startCall, hidle]
  rw [← hlast] at hwait
  have hs := hwait.reachable hbusy.reachable
  have hsum := Count.sum_update Pc.active s.pc (.client ()) (.resting none (some .waited))
  have hzero : ∀ last, (.resting none last : Pc wideConfig).active = 0 := fun _ => rfl
  rw [hlast, hactive, hzero, hzero, Nat.add_zero] at hsum
  refine ⟨_, hs, by simp, hsum, ?_⟩
  intro hsound
  have heq := hsound.active_eq.trans hsum
  rw [(State.counted hs).active_eq, hsum] at heq
  cases heq

end Vosp.Pool
