import Vosp.Error.Serialization
import Vosp.Pool.Idle

/-!
This module contains the theorem that the asynchronous system refines the synchronous handler. With one
worker the serial order is the order of acceptance, because the worker runs one task after the other.
-/

namespace Vosp

open Pool (Config Thread Choice Frame Outcome TaskItem)

variable {cfg : Config} {C ι ρ : Type}

theorem eq_of_sublist {α : Type} {l₁ l₂ l : List α} (h₁ : l₁.Sublist l) (h₂ : l₂.Sublist l) (h : l.Nodup)
    (hmem : ∀ a, a ∈ l₁ ↔ a ∈ l₂)
    : l₁ = l₂ := by
  induction l generalizing l₁ l₂ with
  | nil => rw [List.sublist_nil.mp h₁, List.sublist_nil.mp h₂]
  | cons a l ih =>
    obtain ⟨ha, hl⟩ := List.nodup_cons.mp h
    cases h₁ with
    | cons _ h₁ =>
      have hnot : a ∉ l₁ := fun hin => ha (h₁.subset hin)
      cases h₂ with
      | cons _ h₂ => exact ih h₁ h₂ hl hmem
      | cons_cons _ h₂ => exact absurd ((hmem a).mpr List.mem_cons_self) hnot
    | @cons_cons l₁ _ _ h₁ =>
      cases h₂ with
      | cons _ h₂ => exact absurd (h₂.subset ((hmem a).mp List.mem_cons_self)) ha
      | @cons_cons l₂ _ _ h₂ =>
        rw [ih h₁ h₂ hl]
        intro b
        have hb := hmem b
        rw [List.mem_cons, List.mem_cons] at hb
        constructor
        . intro hin
          exact (hb.mp (.inr hin)).resolve_left (fun heq => ha (h₁.subset (heq ▸ hin)))
        . intro hin
          exact (hb.mpr (.inr hin)).resolve_left (fun heq => ha (h₂.subset (heq ▸ hin)))

namespace Pool

def Pc.front (pc : Pc cfg) (body : Body ι ρ) : List TaskItem :=
  match pc with
  | .resting (some f) _ => if body.outcome.isSome then [f.item] else []
  | .complete f _ => [f.item]
  | _ => []

theorem Pc.front_of_bodyFrame {pc : Pc cfg} {f : Frame} (h : pc.bodyFrame = some f) (body : Body ι ρ)
    : pc.front body = if body.outcome.isSome then [f.item] else [] := by
  cases pc
  case resting c last =>
    cases h
    rfl
  all_goals cases h

theorem Pc.front_sublist (pc : Pc cfg) (body : Body ι ρ) : (pc.front body).Sublist pc.hands := by
  cases pc
  case resting c last =>
    cases c with
    | none => exact List.nil_sublist _
    | some f =>
      rw [front_of_bodyFrame rfl]
      split
      . exact List.Sublist.cons_cons _ (List.nil_sublist _)
      . exact List.nil_sublist _
  case complete f outcome => exact List.Sublist.cons_cons _ (List.nil_sublist _)
  all_goals exact List.nil_sublist _

theorem Pc.front_eq_nil {pc : Pc cfg} {body : Body ι ρ} (hbody : body.outcome = none)
    (hpc : pc.completing = none)
    : pc.front body = [] := by
  cases pc
  case resting c last =>
    cases c with
    | none => rfl
    | some f =>
      rw [front_of_bodyFrame rfl, hbody]
      rfl
  all_goals first | rfl | cases hpc

theorem Edge.front_sublist {t : Thread cfg C} {m : Memory cfg C} {pc pc' : Pc cfg} {op : Op cfg}
    (h : Edge t m pc op pc') (body : Body ι ρ) (hbody : body.outcome = none)
    (hop : ∀ item outcome, op ≠ .complete item outcome)
    : (pc.front body).Sublist (pc'.front body) := by
  cases hcompleting : pc.completing with
  | none =>
    rw [Pc.front_eq_nil hbody hcompleting]
    exact List.nil_sublist _
  | some completed =>
    cases h.completed hcompleting with
    | inl hsame =>
      rw [hsame]
    | inr hcomplete => exact absurd hcomplete (hop _ _)

theorem Edge.front_of_complete {t : Thread cfg C} {m : Memory cfg C} {pc pc' : Pc cfg} {item : TaskItem}
    {outcome : Outcome} (h : Edge t m pc (.complete item outcome) pc') (body : Body ι ρ)
    : pc.front body = [item] := by
  cases h
  rfl

end Pool

namespace AsyncState

variable {s s' : AsyncState cfg C ι ρ}

def handled (s : AsyncState cfg C ι ρ) : List TaskItem :=
  s.pool.memory.history.executed.map (fun e => e.1) ++
    (s.pool.pc (.worker cfg.firstWorker)).front (s.body cfg.firstWorker)

theorem handled_setBody {worker : Fin cfg.workerCount} {body : Body ι ρ}
    (houtcome : body.outcome.isSome = (s.body worker).outcome.isSome)
    : (s.setBody worker body).handled = s.handled := by
  unfold handled setBody
  dsimp only
  by_cases hworker : worker = cfg.firstWorker
  . subst hworker
    rw [Function.update_self]
    generalize s.pool.pc (.worker cfg.firstWorker) = pc
    cases pc
    case resting c last =>
      cases c with
      | none => rfl
      | some f => simp only [Pool.Pc.front, houtcome]
    all_goals rfl
  . rw [Function.update_of_ne (Ne.symm hworker)]

theorem order_sublist_apply (hcount : cfg.workerCount = 1)
    (h : (s.order.map Applied.id).Sublist (s.handled.map fun item => item.id))
    {worker : Fin cfg.workerCount} {f : Frame} {command : Command} {result : OperationResult}
    {body : Body ι ρ} (hframe : (s.pool.pc (.worker worker)).bodyFrame = some f)
    (hold : (s.body worker).outcome = none) (hnew : body.outcome.isSome = true)
    : (((s.apply f command result).setBody worker body).order.map Applied.id).Sublist
        (((s.apply f command result).setBody worker body).handled.map fun item => item.id) := by
  have hworker := Config.eq_firstWorker hcount worker
  subst hworker
  unfold handled at *
  rw [Pool.Pc.front_of_bodyFrame hframe, hold, Option.isSome_none, if_neg Bool.false_ne_true,
    List.append_nil] at h
  simp only [apply, setBody, Function.update_self, Pool.Pc.front_of_bodyFrame hframe, hnew, if_true,
    List.map_append, List.map_cons, List.map_nil]
  exact h.append (List.Sublist.refl _)

variable {handler : Handler ι} {store : ι → ρ} [Fintype C] [DecidableEq C]

theorem handled_sublist (hpool : (Pool.system cfg C).Reachable s.pool) (hcount : cfg.workerCount = 1)
    : s.handled.Sublist s.pool.memory.history.accepted := by
  apply List.Sublist.trans _ (Pool.State.single_sublist hpool hcount)
  exact (List.Sublist.refl _).append (Pool.Pc.front_sublist _ _)

variable [DecidableEq ι] [IRegister ρ]

theorem handled_pool_step (hv : s.Valid handler store) (hcount : cfg.workerCount = 1)
    {event : Pool.Event cfg C} {p : Pool.State cfg C}
    (hfree : ∀ t choice, event = .step t choice → s.occupied t = false) (hpool : s.pool.step event = some p)
    (hp : s'.pool = p) (hbody : s'.body = s.body)
    : s.handled.Sublist s'.handled := by
  unfold handled
  rw [hp, hbody]
  cases Pool.State.step_cases hpool with
  | spurious => exact List.Sublist.refl _
  | @thread t choice op pc' m' hedge heffect =>
    by_cases hcomplete : ∃ item outcome, op = .complete item outcome
    . obtain ⟨item, outcome, rfl⟩ := hcomplete
      have ht := Pool.State.eq_worker_of_handles hv.pool hcount hedge rfl
      subst ht
      rw [hedge.front_of_complete]
      simp only [heffect.executed_of_complete, List.map_append, List.map_cons, List.map_nil]
      exact List.sublist_append_left _ _
    . simp only [not_exists] at hcomplete
      simp only [heffect.executed_eq hcomplete]
      apply (List.Sublist.refl _).append
      by_cases ht : Thread.worker cfg.firstWorker = t
      . subst ht
        have hnone := outcome_eq_none_of_free hv.idle (hfree _ choice rfl)
        rw [Function.update_self]
        exact hedge.front_sublist _ hnone hcomplete
      . rw [Function.update_of_ne ht]

theorem order_sublist_step (hv : s.Valid handler store) (hcount : cfg.workerCount = 1)
    (h : (s.order.map Applied.id).Sublist (s.handled.map fun item => item.id))
    {event : AsyncEvent cfg C} (hstep : s.step handler event = some s')
    : (s'.order.map Applied.id).Sublist (s'.handled.map fun item => item.id) := by
  cases step_cases hstep with
  | @invoke t p command hfree hpool =>
    have hfree' : ∀ u choice, Pool.Event.step t (.call .submit) = .step u choice → s.occupied u = false := by
      rintro u choice heq
      cases heq
      exact hfree
    apply h.trans
    apply List.Sublist.map
    exact handled_pool_step hv hcount hfree' hpool rfl rfl
  | pool hfree hpool =>
    apply h.trans
    apply List.Sublist.map
    exact handled_pool_step hv hcount hfree hpool rfl rfl
  | missing hcurrent hbody =>
    apply order_sublist_apply hcount h (current_eq_some.mp hcurrent).1
    . rw [hbody]
      rfl
    . rfl
  | @write worker f command index i result r hcurrent hbody =>
    apply order_sublist_apply (s := { s with store := Function.update s.store i r }) hcount h
      (current_eq_some.mp hcurrent).1
    . exact congrArg Body.outcome hbody
    . rfl
  | @ret worker f command result p hcurrent hbody hpool =>
    obtain ⟨hframe, -⟩ := current_eq_some.mp hcurrent
    have hworker := Config.eq_firstWorker hcount worker
    subst hworker
    have hp := Pool.State.step_ret hframe hpool
    have hsame : ({ s with pool := p }.setBody cfg.firstWorker (.route 0)).handled = s.handled := by
      unfold handled
      rw [Pool.Pc.front_of_bodyFrame hframe, hbody]
      simp only [setBody, hp, Function.update_self]
      rfl
    rw [hsame]
    exact h
  | skip hcurrent hbody | route hcurrent hbody | read hcurrent hbody =>
    rw [handled_setBody]
    . exact h
    . rw [hbody]
      rfl
  | @lock worker f command index i hcurrent hbody =>
    rw [handled_setBody (s := s.setMutex index (some worker))]
    . exact h
    . exact (congrArg (fun body => body.outcome.isSome) hbody).symm
  | @unlock worker f command index result hcurrent hbody =>
    rw [handled_setBody (s := s.setMutex index none)]
    . exact h
    . exact (congrArg (fun body => body.outcome.isSome) hbody).symm

theorem valid (hs : (asyncSystem cfg C handler store).Reachable s) : s.Valid handler store := by
  apply System.ReachableVia.invariant _ _ hs
  . exact .init handler store
  . intro s event s' _ hv _ hstep
    exact hv.step hstep

theorem order_sublist (hs : (asyncSystem cfg C handler store).Reachable s) (hcount : cfg.workerCount = 1)
    : (s.order.map Applied.id).Sublist (s.pool.memory.history.accepted.map fun item => item.id) := by
  have hhandled : (s.order.map Applied.id).Sublist (s.handled.map fun item => item.id) := by
    apply System.ReachableVia.invariant _ _ hs
    . exact List.nil_sublist _
    . intro s event s' hs h _ hstep
      exact order_sublist_step (valid hs) hcount h hstep
  exact hhandled.trans ((handled_sublist (valid hs).pool hcount).map _)

def uncancelled (s : AsyncState cfg C ι ρ) : List TaskItem :=
  s.pool.memory.history.accepted.filter fun item => item ∉ s.pool.memory.history.cancelled

structure Serialized (handler : Handler ι) (store : ι → ρ) (s : AsyncState cfg C ι ρ) : Prop where
  replay : handler.run store (s.order.map Applied.command) = (s.order.map Applied.result, s.store)
  once : (s.order.map Applied.id).Nodup
  executing : ∀ entry ∈ s.order, s.closure entry.id = some entry.command ∧
    ∃ item place, item.id = entry.id ∧ s.pool.At item place ∧
      (place = .executed ∨ ∃ worker, place = .claimed worker)
  executed : ∀ item outcome command, (item, outcome) ∈ s.pool.memory.history.executed →
    s.closure item.id = some command →
    ∃ result, outcome = .result result ∧ ⟨item.id, command, result⟩ ∈ s.order
  cancelled : ∀ item ∈ s.pool.memory.history.cancelled, ∀ entry ∈ s.order, entry.id ≠ item.id
  future : ∀ id command outcome, s.closure id = some command → s.pool.memory.promise id = some outcome →
    (∃ result, outcome = .result result ∧ ⟨id, command, result⟩ ∈ s.order) ∨
      outcome = .result (.error Pool.taskCancelledError) ∧ ∀ entry ∈ s.order, entry.id ≠ id
  accepted : cfg.workerCount = 1 →
    (s.order.map Applied.id).Sublist (s.pool.memory.history.accepted.map fun item => item.id)
  synchronous : cfg.workerCount = 1 → s.pool.Idle →
    s.order.map Applied.id =
        (s.uncancelled.filter fun item => (s.closure item.id).isSome).map (fun item => item.id) ∧
      handler.run store (s.uncancelled.filterMap fun item => s.closure item.id) =
        (s.order.map Applied.result, s.store)

theorem at_of_order (hv : s.Valid handler store) {entry : Applied} (h : entry ∈ s.order)
    : ∃ item place, item.id = entry.id ∧ s.pool.At item place ∧
        (place = .executed ∨ ∃ worker, place = .claimed worker) := by
  obtain ⟨item, place, hid, hat, hplace⟩ := at_of_done hv.pool (hv.done entry h).2
  refine ⟨item, place, hid, hat, ?_⟩
  rcases hplace with hexecuted | ⟨worker, hclaimed, -⟩
  . exact .inl hexecuted
  . exact .inr ⟨worker, hclaimed⟩

theorem ne_of_cancelled (hv : s.Valid handler store) {item : TaskItem}
    (h : item ∈ s.pool.memory.history.cancelled) {entry : Applied} (hentry : entry ∈ s.order)
    : entry.id ≠ item.id := by
  intro hid
  have hcancelled : s.pool.At item .cancelled := h
  obtain ⟨other, place, hother, hat, hplace⟩ := at_of_order hv hentry
  have heq := Pool.State.eq_of_id_eq hv.pool (Pool.State.mem_accepted hv.pool hat)
    (Pool.State.mem_accepted hv.pool hcancelled) (hother.trans hid)
  subst heq
  have hsame := Pool.State.at_unique hv.pool hat hcancelled
  subst hsame
  rcases hplace with hexecuted | ⟨worker, hclaimed⟩
  . cases hexecuted
  . cases hclaimed

theorem future_cases (hv : s.Valid handler store) {id : Nat} {command : Command} {outcome : Outcome}
    (hclosure : s.closure id = some command) (hpromise : s.pool.memory.promise id = some outcome)
    : (∃ result, outcome = .result result ∧ ⟨id, command, result⟩ ∈ s.order) ∨
        outcome = .result (.error Pool.taskCancelledError) ∧ ∀ entry ∈ s.order, entry.id ≠ id := by
  obtain ⟨item, rfl, -, hsettled⟩ := ((Pool.State.accounted hv.pool).promise _ _).mp hpromise
  rcases hsettled with hexecuted | ⟨hcancelled, houtcome⟩
  . exact .inl (hv.applied _ _ _ hclosure (.inl ⟨item, rfl, hexecuted⟩))
  . exact .inr ⟨houtcome, fun entry hentry => ne_of_cancelled hv hcancelled hentry⟩

theorem mem_order_iff (hv : s.Valid handler store) (hidle : s.pool.Idle) (id : Nat)
    : id ∈ s.order.map Applied.id ↔
        id ∈ (s.uncancelled.filter fun item => (s.closure item.id).isSome).map (fun item => item.id) := by
  simp only [List.mem_map, List.mem_filter, uncancelled, decide_eq_true_eq]
  constructor
  . rintro ⟨entry, hentry, rfl⟩
    obtain ⟨item, place, hid, hat, -⟩ := at_of_order hv hentry
    refine ⟨item, ⟨⟨Pool.State.mem_accepted hv.pool hat, ?_⟩, ?_⟩, hid⟩
    . intro hcancelled
      exact ne_of_cancelled hv hcancelled hentry hid.symm
    . rw [hid, (hv.done entry hentry).1]
      rfl
  . rintro ⟨item, ⟨⟨haccepted, hcancelled⟩, hclosure⟩, rfl⟩
    obtain ⟨command, hclosure⟩ := Option.isSome_iff_exists.mp hclosure
    obtain ⟨place, hat⟩ := Pool.State.exists_at hv.pool haccepted
    cases place with
    | queued =>
      have hempty := List.append_eq_nil_iff.mp hidle.queue_eq
      have hqueue : item ∈ s.pool.memory.history.queue := hat
      rw [hempty.2] at hqueue
      cases hqueue
    | claimed worker =>
      have hhands : item ∈ (s.pool.pc (.worker worker)).hands := hat
      rw [hidle.hands_eq] at hhands
      cases hhands
    | executed =>
      obtain ⟨⟨_, outcome⟩, hexecuted, rfl⟩ := List.mem_map.mp hat
      obtain ⟨result, -, hentry⟩ := hv.applied _ _ _ hclosure (.inl ⟨_, rfl, hexecuted⟩)
      exact ⟨_, hentry, rfl⟩
    | cancelled => exact absurd hat hcancelled

theorem order_eq_uncancelled (hs : (asyncSystem cfg C handler store).Reachable s)
    (hcount : cfg.workerCount = 1) (hidle : s.pool.Idle)
    : s.order.map Applied.id =
        (s.uncancelled.filter fun item => (s.closure item.id).isSome).map (fun item => item.id) := by
  have hv := valid hs
  apply eq_of_sublist (order_sublist hs hcount) _ (Pool.State.accepted_nodup hv.pool) (mem_order_iff hv hidle)
  apply List.Sublist.map
  exact List.filter_sublist.trans List.filter_sublist

theorem commands_eq (hv : s.Valid handler store)
    (h : s.order.map Applied.id =
      (s.uncancelled.filter fun item => (s.closure item.id).isSome).map (fun item => item.id))
    : s.uncancelled.filterMap (fun item => s.closure item.id) = s.order.map Applied.command := by
  have horder : (s.order.map Applied.id).filterMap s.closure = s.order.map Applied.command := by
    rw [List.filterMap_map, ← List.filterMap_eq_map]
    apply List.filterMap_congr
    intro entry hentry
    exact (hv.done entry hentry).1
  rw [← horder, h, List.filterMap_map, List.filterMap_filter]
  apply List.filterMap_congr
  intro item _
  cases hclosure : s.closure item.id with
  | none => simp
  | some command => simp [hclosure]

end AsyncState

theorem async_refines_handler [Fintype C] [DecidableEq C] [DecidableEq ι] [IRegister ρ] {handler : Handler ι}
    {store : ι → ρ} {s : AsyncState cfg C ι ρ}
    (hs : (asyncSystem cfg C handler store).Reachable s)
    : s.Serialized handler store := by
  have hv := AsyncState.valid hs
  constructor
  case replay => exact hv.replay
  case once => exact hv.once
  case executing =>
    intro entry hentry
    exact ⟨(hv.done entry hentry).1, AsyncState.at_of_order hv hentry⟩
  case executed =>
    intro item outcome command hexecuted hclosure
    exact hv.applied _ _ _ hclosure (.inl ⟨item, rfl, hexecuted⟩)
  case cancelled => exact fun _ hitem _ hentry => AsyncState.ne_of_cancelled hv hitem hentry
  case future => exact fun _ _ _ hclosure hpromise => AsyncState.future_cases hv hclosure hpromise
  case accepted => exact AsyncState.order_sublist hs
  case synchronous =>
    intro hcount hidle
    have horder := AsyncState.order_eq_uncancelled hs hcount hidle
    refine ⟨horder, ?_⟩
    rw [AsyncState.commands_eq hv horder]
    exact hv.replay

def tinyOperation (command : Command) : List (AsyncEvent Pool.tinyConfig Unit) :=
  let worker : Fin Pool.tinyConfig.workerCount := ⟨0, Nat.one_pos⟩
  .invoke (.client ()) command ::
    (Pool.Event.goes (.client ()) 8).map .pool ++ (Pool.Event.goes (.worker worker) 9).map .pool ++
    List.replicate 6 (.task worker) ++ (Pool.Event.goes (.worker worker) 4).map .pool

def tinyStore (_ : Unit) : (category : Category) × Register category :=
  ⟨.network, Register.empty .network⟩

-- An error is added and removed twice, and the second removal fails. The last operation is cancelled.
theorem async_refines_handler_tiny
    : ∃ s : AsyncState Pool.tinyConfig Unit Unit ((category : Category) × Register category),
        (s.order.map fun entry => entry.result.isOk) = [true, true, false] ∧
          s.pool.memory.history.cancelled.length = 1 ∧ (s.store ()).2.size = 0 ∧ s.Serialized ⟨[()]⟩ tinyStore := by
  let e : Error := ⟨.network, 1000, ascii "Network error"⟩
  let shutdown : List (Pool.Event Pool.tinyConfig Unit) :=
    .step (.client ()) (.call (.shutdown .cancelPending)) :: Pool.Event.goes (.client ()) 8
  have hrun : ((asyncSystem Pool.tinyConfig Unit ⟨[()]⟩ tinyStore).run (.init tinyStore)
      (tinyOperation ⟨.add, e⟩ ++ tinyOperation ⟨.remove, e⟩ ++ tinyOperation ⟨.remove, e⟩ ++
        .invoke (.client ()) ⟨.add, e⟩ :: (Pool.Event.goes (.client ()) 8 ++ shutdown).map .pool)).map
      (fun s => decide ((s.order.map fun entry => entry.result.isOk) = [true, true, false]) &&
        decide (s.pool.memory.history.cancelled.length = 1) && decide ((s.store ()).2.size = 0)) = some true := by
    decide +kernel
  obtain ⟨s, hs, hp⟩ := System.exists_of_run _ hrun
  simp only [Bool.and_eq_true, decide_eq_true_eq] at hp
  obtain ⟨⟨horder, hcancelled⟩, hsize⟩ := hp
  exact ⟨s, horder, hcancelled, hsize, async_refines_handler hs⟩

end Vosp
