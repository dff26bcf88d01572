import Vosp.Lib.Count
import Vosp.Pool.Local

/-!
This module contains the effect of an operation on the three counts in `queue_state_`, and the
frame of an operation: what stays the same because the operation requires a lock.
-/

namespace Vosp.Pool

variable {cfg : Config} {C : Type}

def Op.published (op : Op cfg) : Nat :=
  match op with
  | .publish count => count
  | _ => 0

def Op.dropped (op : Op cfg) : Nat :=
  match op with
  | .cancelAll count => count
  | _ => 0

def Op.stops (op : Op cfg) : Bool :=
  match op with
  | .setStopping => true
  | _ => false

namespace Op

variable {op : Op cfg}

theorem published_eq (h : op.needs .producer = false) : op.published = 0 := by
  cases op
  all_goals first | rfl | cases h

theorem published_or_dropped (op : Op cfg) : op.published = 0 ∨ op.claimed + op.dropped = 0 := by
  cases op
  case publish => exact .inr rfl
  all_goals exact .inl rfl

theorem stops_eq (h : op.needs .producer = false) : op.stops = false := by
  cases op
  all_goals first | rfl | cases h

end Op

namespace Effect

variable [DecidableEq C] {t : Thread cfg C} {choice : Choice cfg C} {op : Op cfg}
  {m m' : Memory cfg C} {pending active : Nat} {stopping : Bool}

theorem counts (h : Effect t choice op m m') (hm : Counts m.queueState pending active stopping)
    (hpublished : pending + op.published < 2 ^ countBits)
    (hpending : op.claimed + op.dropped ≤ pending) (hfinished : op.finished ≤ active)
    (hactive : active + op.claimed ≤ maxWorkerCount * bulkClaimSize)
    : Counts m'.queueState (pending + op.published - (op.claimed + op.dropped))
        (active + op.claimed - op.finished) (stopping || op.stops) := by
  cases h
  all_goals
    simp only [Op.published, Op.claimed, Op.dropped, Op.finished, Op.stops, Nat.add_zero,
      Nat.zero_add, Nat.sub_zero, Bool.or_false, Bool.or_true] at *
  case publish => exact hm.publish hpublished hactive
  case claim => exact hm.claim hpending hactive
  case cancelAll => exact hm.cancel hpending
  case finish => exact hm.finish hfinished
  case setStopping => exact hm.stop
  case cancel hcancel =>
    obtain ⟨_, _, rfl⟩ := Memory.cancel_eq hcancel
    exact hm
  case complete hcomplete =>
    obtain ⟨_, _, rfl⟩ := Memory.complete_eq hcomplete
    exact hm
  all_goals exact hm

theorem written_eq (h : Effect t choice op m m') (hop : op.needs .producer = false)
    : m'.history.written = m.history.written := by
  cases h
  case complete hcomplete =>
    obtain ⟨_, _, rfl⟩ := Memory.complete_eq hcomplete
    rfl
  all_goals first | rfl | cases hop

theorem leaving_eq (h : Effect t choice op m m') (hop : op.needs .consumer = false)
    : m'.history.leaving = m.history.leaving := by
  cases h
  case complete hcomplete =>
    obtain ⟨_, _, rfl⟩ := Memory.complete_eq hcomplete
    rfl
  all_goals first | rfl | cases hop

theorem queue_isPrefix (h : Effect t choice op m m') (hop : op.needs .consumer = false)
    : m.history.queue <+: m'.history.queue := by
  cases h
  case publish => exact List.prefix_append _ _
  case complete hcomplete =>
    obtain ⟨_, _, rfl⟩ := Memory.complete_eq hcomplete
    exact List.prefix_rfl
  all_goals first | exact List.prefix_rfl | cases hop

theorem queue_eq (h : Effect t choice op m m') (hconsumer : op.needs .consumer = false)
    (hproducer : op.needs .producer = false)
    : m'.history.queue = m.history.queue := by
  cases h
  case complete hcomplete =>
    obtain ⟨_, _, rfl⟩ := Memory.complete_eq hcomplete
    rfl
  case publish => cases hproducer
  all_goals first | rfl | cases hconsumer

end Effect

end Vosp.Pool
