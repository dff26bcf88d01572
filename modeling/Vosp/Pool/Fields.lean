import Vosp.Pool.Queue

/-!
This module contains the three fields of `queue_state_` as numbers and what an atomic update of the
word means for them. In every run each update meets the condition under which it changes no other
field than it should.
-/

namespace Vosp.Pool

variable {cfg : Config} {C κ : Type}

structure Fields where
  queued : Nat := 0
  active : Nat := 0
  stopping : Bool := false
  deriving DecidableEq

def readFields (state : Word cfg) : Fields where
  queued := state.toNat % 2 ^ countBits
  active := state.toNat % 2 ^ (cfg.digits - 1) / 2 ^ countBits
  stopping := state.msb

theorem Counts.fields_eq {state : Word cfg} {pending active : Nat} {stopping : Bool}
    (h : Counts state pending active stopping)
    : readFields state = ⟨pending, active, stopping⟩ := by
  have hdigits := cfg.le_digits
  have hwidth : countBits < cfg.digits := by
    simp only [countBits]
    omega
  rw [readFields, h.mod_eq hwidth, h.div_eq (by omega), h.msb_eq (by omega)]

inductive Update where
  | publish (count : Nat)
  | claim (count : Nat)
  | cancel (count : Nat)
  | finish (count : Nat)
  | stop
  deriving DecidableEq

namespace Update

def word (update : Update) (state : Word cfg) : Word cfg :=
  match update with
  | .publish count => publishState state count
  | .claim count => claimState state count
  | .cancel count => cancelState state count
  | .finish count => finishState state count
  | .stop => stopState state

def fields (update : Update) (f : Fields) : Fields :=
  match update with
  | .publish count => { f with queued := f.queued + count }
  | .claim count => { f with queued := f.queued - count, active := f.active + count }
  | .cancel count => { f with queued := f.queued - count }
  | .finish count => { f with active := f.active - count }
  | .stop => { f with stopping := true }

def Fits (cfg : Config) (update : Update) (f : Fields) : Prop :=
  match update with
  | .publish count => f.queued + count ≤ cfg.queueCapacity
  | .claim count => count ≤ f.queued ∧ f.active + count ≤ bulkClaimSize * cfg.workerCount
  | .cancel count => count = f.queued
  | .finish count => count ≤ f.active
  | .stop => True

theorem word_counts {update : Update} {state : Word cfg} {f : Fields}
    (h : Counts state f.queued f.active f.stopping) (hfits : update.Fits cfg f)
    (hactive : f.active ≤ bulkClaimSize * cfg.workerCount)
    : Counts (update.word state) (update.fields f).queued (update.fields f).active
        (update.fields f).stopping := by
  have hworkers := Nat.mul_le_mul_left bulkClaimSize cfg.workerCount_le
  rw [Nat.mul_comm _ maxWorkerCount] at hworkers
  cases update with
  | publish count =>
    have hfits : f.queued + count ≤ cfg.queueCapacity := hfits
    have hcapacity := cfg.queueCapacity_le
    apply h.publish
    . simp only [maxQueueCapacity, countBits] at *
      omega
    . omega
  | claim count => exact h.claim hfits.1 (Nat.le_trans hfits.2 hworkers)
  | cancel count => exact h.cancel (Nat.le_of_eq hfits)
  | finish count => exact h.finish hfits
  | stop => exact h.stop

theorem stopping_fields (update : Update) (f : Fields)
    : (update.fields f).stopping = true ↔ f.stopping = true ∨ update = .stop := by
  cases update
  case stop => exact ⟨fun _ => .inr rfl, fun _ => rfl⟩
  all_goals exact ⟨.inl, fun h => h.resolve_right Update.noConfusion⟩

end Update

def Code.update (code : Code cfg C κ) : Option Update :=
  match code with
  | .publish count _ => some (.publish count)
  | .claim count _ => some (.claim count)
  | .cancelAll count _ => some (.cancel count)
  | .finish count _ => some (.finish count)
  | .setStopping _ => some .stop
  | _ => none

def Op.update (op : Op cfg) : Option Update :=
  match op with
  | .publish count => some (.publish count)
  | .claim count => some (.claim count)
  | .cancelAll count => some (.cancel count)
  | .finish count => some (.finish count)
  | .setStopping => some .stop
  | _ => none

def State.update (s : State cfg C) (event : Event cfg C) : Option Update :=
  match event with
  | .step thread _ => ((s.pc thread).code : Code cfg C (Pc cfg)).update
  | .spurious _ => none

theorem Edge.update_eq {t : Thread cfg C} {m : Memory cfg C} {pc pc' : Pc cfg} {op : Op cfg}
    (h : Edge t m pc op pc')
    : (pc.code : Code cfg C (Pc cfg)).update = op.update := by
  cases h
  case workersNotifyAll | workersNotifyOne =>
    rw [Pc.code]
    split
    . rfl
    . rfl
  all_goals first | rfl | cases ‹Context› <;> rfl

theorem Effect.queueState_eq [DecidableEq C] {t : Thread cfg C} {choice : Choice cfg C} {op : Op cfg}
    {m m' : Memory cfg C} (h : Effect t choice op m m')
    : m'.queueState = op.update.elim m.queueState fun update => update.word m.queueState := by
  cases h
  case cancel hcancel =>
    obtain ⟨_, _, rfl⟩ := Memory.cancel_eq hcancel
    rfl
  case complete hcomplete =>
    obtain ⟨_, _, rfl⟩ := Memory.complete_eq hcomplete
    rfl
  all_goals rfl

theorem Edge.update_fits {t : Thread cfg C} {m : Memory cfg C} {pc pc' : Pc cfg} {op : Op cfg} {f : Fields}
    {update : Update} (h : Edge t m pc op pc') (hproducing : pc.Producing m)
    (hconsuming : pc.Consuming m.history) (hpending : m.pendingTasks = f.queued)
    (hqueued : f.queued = m.history.leaving.length + m.history.queue.length)
    (hactive : pc.active ≤ f.active)
    (hclaimed : f.active + op.claimed ≤ bulkClaimSize * cfg.workerCount)
    (hupdate : op.update = some update)
    : update.Fits cfg f := by
  cases h
  case slotPublish =>
    cases hupdate
    have hfits := hproducing.2.1
    simp only [List.length_nil] at hfits
    simp only [Update.Fits]
    omega
  case claim =>
    cases hupdate
    have hleaving := congrArg List.length hconsuming
    refine ⟨?_, hclaimed⟩
    omega
  case cancelPublish =>
    cases hupdate
    have hleaving := hconsuming.1
    have hqueue := hconsuming.2
    simp only [Update.Fits]
    omega
  case finish | finishLast =>
    cases hupdate
    exact hactive
  case signalStop =>
    cases hupdate
    trivial
  all_goals cases hupdate

namespace State

variable [Fintype C] [DecidableEq C] {s s' : State cfg C}

theorem fields_eq (hs : (system cfg C).Reachable s)
    : readFields s.memory.queueState =
        ⟨s.memory.history.leaving.length + s.memory.history.queue.length, ∑ t, (s.pc t).active,
          s.memory.isStopping⟩ :=
  (counted hs).word.fields_eq

theorem sum_active_le (hs : (system cfg C).Reachable s)
    : ∑ t, (s.pc t).active ≤ bulkClaimSize * cfg.workerCount := by
  have hcounted := counted hs
  calc ∑ t, (s.pc t).active ≤ cfg.workerCount * min bulkClaimSize cfg.queueCapacity :=
        active_le hcounted.kind hcounted.claiming
    _ ≤ cfg.workerCount * bulkClaimSize := Nat.mul_le_mul_left _ (Nat.min_le_left _ _)
    _ = bulkClaimSize * cfg.workerCount := Nat.mul_comm _ _

theorem update_fits (hs : (system cfg C).Reachable s) {event : Event cfg C}
    (h : (system cfg C).step s event = some s') {update : Update} (hupdate : s.update event = some update)
    : update.Fits cfg (readFields s.memory.queueState) := by
  have hs' := hs.next h
  cases step_cases h with
  | spurious t => cases hupdate
  | @thread t choice op pc' m' hedge heffect =>
    have hcounted := counted hs
    have hsum := Count.sum_update Pc.active s.pc t pc'
    have hown := hedge.active_add
    have hle := Count.le_sum (fun u => (s.pc u).active) t
    have hactive := sum_active_le hs'
    have hactive' := sum_active_le hs
    have hclaimed : ∑ u, (s.pc u).active + op.claimed ≤ bulkClaimSize * cfg.workerCount := by
      simp only at hactive
      cases op.claimed_or_finished <;> omega
    rw [fields_eq hs]
    exact hedge.update_fits (hcounted.producing t) (hcounted.consuming t) hcounted.pending_eq rfl hle
      hclaimed (hedge.update_eq.symm.trans hupdate)

theorem word_update {event : Event cfg C} (h : (system cfg C).step s event = some s')
    : s'.memory.queueState =
        (s.update event).elim s.memory.queueState fun update => update.word s.memory.queueState := by
  cases step_cases h with
  | spurious t => rfl
  | thread t choice hedge heffect =>
    rw [heffect.queueState_eq, ← hedge.update_eq]
    rfl

theorem fields_update (hs : (system cfg C).Reachable s) {event : Event cfg C}
    (h : (system cfg C).step s event = some s')
    : readFields s'.memory.queueState =
        (s.update event).elim (readFields s.memory.queueState) fun update =>
          update.fields (readFields s.memory.queueState) := by
  have hword := word_update h
  cases hupdate : s.update event with
  | none =>
    rw [hupdate] at hword
    exact congrArg readFields hword
  | some update =>
    rw [hupdate] at hword
    have hcounts : Counts s.memory.queueState (readFields s.memory.queueState).queued
        (readFields s.memory.queueState).active (readFields s.memory.queueState).stopping := by
      rw [fields_eq hs]
      exact (counted hs).word
    have hactive : (readFields s.memory.queueState).active ≤ bulkClaimSize * cfg.workerCount := by
      rw [fields_eq hs]
      exact sum_active_le hs
    have hcounts' := Update.word_counts hcounts (update_fits hs h hupdate) hactive
    exact (congrArg readFields hword).trans hcounts'.fields_eq

/--
The fields say what the updates so far have done, and the next update meets its condition.
-/
structure Packed (s : State cfg C) (updates : List Update) : Prop where
  replay : readFields s.memory.queueState = updates.foldl (fun f update => update.fields f) {}
  queued_eq : s.memory.history.accepted.length =
    s.memory.history.removed.length + (readFields s.memory.queueState).queued
  queued_le : (readFields s.memory.queueState).queued ≤ cfg.queueCapacity
  active_eq : (readFields s.memory.queueState).active = ∑ t, (s.pc t).active
  active_le : (readFields s.memory.queueState).active ≤ bulkClaimSize * cfg.workerCount
  stopping_iff : (readFields s.memory.queueState).stopping = true ↔ .stop ∈ updates
  word_step : ∀ event s', (system cfg C).step s event = some s' → s'.memory.queueState =
    (s.update event).elim s.memory.queueState fun update => update.word s.memory.queueState
  fields_step : ∀ event s', (system cfg C).step s event = some s' → readFields s'.memory.queueState =
    (s.update event).elim (readFields s.memory.queueState) fun update =>
      update.fields (readFields s.memory.queueState)
  fits : ∀ event s', (system cfg C).step s event = some s' → ∀ update, s.update event = some update →
    update.Fits cfg (readFields s.memory.queueState)

theorem replay_fields {s : State cfg C × List Update}
    (hs : ((system cfg C).recording fun s event => (s.update event).toList).Reachable s)
    : readFields s.1.memory.queueState = s.2.foldl (fun f update => update.fields f) {} := by
  refine System.Reachable.recording_invariant
    (I := fun s updates => readFields s.memory.queueState = updates.foldl (fun f update => update.fields f) {})
    ?_ ?_ hs
  . exact Counts.zero.fields_eq
  . intro s updates event s' hs h hstep
    rw [fields_update hs hstep, List.foldl_append, ← h]
    cases s.update event with
    | none => rfl
    | some update => rfl

end State

theorem stopping_foldl (updates : List Update) (f : Fields)
    : (updates.foldl (fun f update => update.fields f) f).stopping = true ↔
        f.stopping = true ∨ .stop ∈ updates := by
  induction updates generalizing f with
  | nil => simp
  | cons update updates ih =>
    rw [List.foldl_cons, ih, update.stopping_fields, List.mem_cons, or_assoc, @eq_comm _ update]

theorem queue_state_fields [Fintype C] [DecidableEq C] {s : State cfg C × List Update}
    (hs : ((system cfg C).recording fun s event => (s.update event).toList).Reachable s)
    : s.1.Packed s.2 := by
  have hs' := System.Reachable.of_recording hs
  have hreplay := State.replay_fields hs
  have hfields := State.fields_eq hs'
  constructor
  case replay => exact hreplay
  case queued_eq =>
    rw [hfields, (State.ringed hs').order, List.length_append, List.length_append, Nat.add_assoc]
  case queued_le =>
    rw [hfields, ← (State.counted hs').pending_eq]
    exact (State.counted hs').pending_le
  case active_eq => rw [hfields]
  case active_le =>
    rw [hfields]
    exact State.sum_active_le hs'
  case stopping_iff =>
    rw [hreplay, stopping_foldl]
    exact or_iff_right Bool.false_ne_true
  case word_step => exact fun event s' h => State.word_update h
  case fields_step => exact fun event s' h => State.fields_update hs' h
  case fits => exact fun event s' h update hupdate => State.update_fits hs' h hupdate

theorem queue_state_fields_tiny
    : ∃ s : State tinyConfig Unit × List Update, s.2 = [.publish 1, .claim 1, .finish 1, .stop] ∧
        s.1.Packed s.2 := by
  have hrun : (((system tinyConfig Unit).recording fun s event => (s.update event).toList).run
      (State.init, []) tinyRun).map (fun s => s.2 == [.publish 1, .claim 1, .finish 1, .stop]) = some true := by
    decide +kernel
  obtain ⟨s, hs, hp⟩ := System.exists_of_run _ hrun
  exact ⟨s, eq_of_beq hp, queue_state_fields hs⟩

end Vosp.Pool
