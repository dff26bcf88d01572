import Vosp.Error.AsyncShutdown
import Vosp.Pool.WindDown

/-!
This module says how an asynchronous `ErrorSystem` comes to rest after a shutdown of its pool has been signalled.
The workers cannot block each other at the mutexes of the registers, so what the pool does without them it also does
with them.
-/

namespace Vosp

open Pool (Config Thread Choice Frame Outcome Op Memory Pc Edge)

namespace Pool

variable {cfg : Config} {C : Type} {t : Thread cfg C} {m : Memory cfg C} {pc pc' : Pc cfg} {op : Op cfg} {f : Frame}

def Pc.callFrame (pc : Pc cfg) : Option Frame :=
  match pc with
  | .resting .. | .complete .. => none
  | pc => pc.frame

theorem Edge.callFrame (h : Edge t m pc op pc') (hframe : pc'.callFrame = some f)
    : pc.callFrame = some f ∨ pc.bodyFrame = some f ∧ ∃ request, op = .call request := by
  cases h
  case callEnqueue | callBulk | callClearQueue | callWait | callObserve | callShutdownWorker =>
    exact .inr ⟨hframe, _, rfl⟩
  all_goals first | exact .inl hframe | cases hframe

theorem Pc.mem_hands_of_callFrame (h : pc.callFrame = some f) : f.item ∈ pc.hands := by
  cases pc
  all_goals cases h <;> exact List.mem_cons_self

theorem State.ret_ne_none [Fintype C] [DecidableEq C] {s : State cfg C} (hframe : (s.pc t).bodyFrame = some f)
    (outcome : Outcome)
    : s.step (.step t (.ret outcome)) ≠ none := by
  rw [step]
  generalize s.pc t = pc at hframe
  cases pc
  case resting c last =>
    cases hframe
    exact Option.some_ne_none _
  all_goals cases hframe

end Pool

namespace AsyncState

variable {cfg : Config} {C ι ρ : Type} [Fintype C] [DecidableEq C] [DecidableEq ι] [IRegister ρ]
  {handler : Handler ι} {store : ι → ρ} {s s' : AsyncState cfg C ι ρ} {worker : Fin cfg.workerCount}

def Foreign (s : AsyncState cfg C ι ρ) : Prop :=
  ∀ worker f, (s.pool.pc (.worker worker)).callFrame = some f → s.closure f.item.id = none

theorem Foreign.pool_step (h : s.Foreign) (hv : s.Valid handler store) {event : Pool.Event cfg C}
    {p : Pool.State cfg C} (hfree : ∀ t choice, event = .step t choice → s.occupied t = false)
    (hpool : s.pool.step event = some p) {closure : Nat → Option Command}
    (hclosure : ∀ id < s.pool.memory.history.nextId, closure id = s.closure id)
    : Foreign { s with pool := p, closure := closure } := by
  intro worker f hframe
  have hold : f.item ∈ (s.pool.pc (.worker worker)).hands ∧ s.closure f.item.id = none := by
    cases Pool.State.step_cases hpool with
    | spurious => exact ⟨Pool.Pc.mem_hands_of_callFrame hframe, h worker f hframe⟩
    | @thread t choice op pc' m' hedge heffect =>
      by_cases ht : Thread.worker worker = t
      . subst ht
        dsimp only at hframe
        rw [Function.update_self] at hframe
        rcases hedge.callFrame hframe with hcall | ⟨hbody, -⟩
        . exact ⟨Pool.Pc.mem_hands_of_callFrame hcall, h worker f hcall⟩
        . refine ⟨Pool.Pc.hands_of_bodyFrame hbody, ?_⟩
          have hnone : s.current worker = none := by
            simpa [occupied] using hfree _ _ rfl
          rw [current_eq, hbody, Option.bind_some, Option.map_eq_none_iff] at hnone
          exact hnone
      . dsimp only at hframe
        rw [Function.update_of_ne ht] at hframe
        exact ⟨Pool.Pc.mem_hands_of_callFrame hframe, h worker f hframe⟩
  exact (hclosure _ (Pool.State.lt_nextId_of_hands hv.pool hold.1)).trans hold.2

theorem foreign (hs : (asyncSystem cfg C handler store).Reachable s) : s.Foreign := by
  apply System.ReachableVia.invariant _ _ hs
  . intro worker f hframe
    cases hframe
  . intro s event s' hs h _ hstep
    have hv := valid hs
    cases step_cases hstep with
    | @invoke t p command hfree hpool =>
      apply h.pool_step hv _ hpool
      . intro id hid
        exact Function.update_of_ne hid.ne _ _
      . rintro u choice heq
        cases heq
        exact hfree
    | pool hfree hpool => exact h.pool_step hv hfree hpool (fun _ _ => rfl)
    | @ret worker f command result p hcurrent hbody hpool =>
      intro other f' hframe
      rw [Pool.State.step_ret (current_eq_some.mp hcurrent).1 hpool] at hframe
      by_cases hother : Thread.worker other = (.worker worker : Thread cfg C)
      . dsimp only [setBody] at hframe
        rw [hother, Function.update_self] at hframe
        cases hframe
      . dsimp only [setBody] at hframe
        rw [Function.update_of_ne hother] at hframe
        exact h other f' hframe
    | missing | skip | route | lock | read | write | unlock => exact h

theorem lock_of_halted {f : Frame} {command : Command} (hcurrent : s.current worker = some (f, command))
    (h : s.step handler (.task worker) = none)
    : ∃ index i, s.body worker = .lock index i ∧ s.mutexes index ≠ none := by
  simp only [step, hcurrent, stepTask] at h
  split at h
  . split at h
    . cases h
    . split at h <;> cases h
  . next index i hbody =>
    split at h
    . cases h
    . next hheld => exact ⟨index, i, hbody, hheld⟩
  . cases h
  . cases h
  . cases h
  . simp only [stepPool, Option.map_eq_none_iff] at h
    exact absurd h (Pool.State.ret_ne_none (current_eq_some.mp hcurrent).1 _)

theorem free_of_halted (hv : s.Valid handler store)
    (h : ∀ worker, s.step handler (.task worker) = none) (worker : Fin cfg.workerCount)
    : s.current worker = none := by
  -- The owner of the mutex that an operation waits for could go on.
  by_contra hne
  obtain ⟨⟨f, command⟩, hcurrent⟩ := Option.ne_none_iff_exists'.mp hne
  obtain ⟨index, _, -, hheld⟩ := lock_of_halted hcurrent (h worker)
  obtain ⟨owner, howner⟩ := Option.ne_none_iff_exists'.mp hheld
  have hholds : (s.body owner).holds index = true := (hv.owned owner index).mpr howner
  cases hother : s.current owner with
  | none =>
    rw [hv.idle owner hother] at hholds
    cases hholds
  | some task =>
    obtain ⟨_, _, hlock, -⟩ := lock_of_halted hother (h owner)
    rw [hlock] at hholds
    cases hholds

structure AtRest (s : AsyncState cfg C ι ρ) : Prop where
  pool : s.pool.AtRest
  ready : ∀ item ∈ s.pool.memory.history.accepted, (s.closure item.id).isSome = true →
    (s.pool.memory.promise item.id).isSome = true
  mutexes : ∀ index, s.mutexes index = none

def Hung (s : AsyncState cfg C ι ρ) (worker : Fin cfg.workerCount) : Prop :=
  ∃ f epoch, s.pool.pc (.worker worker) = .epochWait (some f) epoch ∧
    s.pool.memory.epochSleeper (.worker worker) = true ∧ s.closure f.item.id = none

end AsyncState

def AsyncEvent.advances {cfg : Config} {C : Type} (event : AsyncEvent cfg C) : Bool :=
  match event with
  | .invoke .. => false
  | .task _ => true
  | .pool event => event.advances

namespace AsyncState

variable {cfg : Config} {C ι ρ : Type} [Fintype C] [DecidableEq C] [DecidableEq ι] [IRegister ρ]
  {handler : Handler ι} {store : ι → ρ} {s : AsyncState cfg C ι ρ}

theorem pool_halted (hv : s.Valid handler store)
    (hhalted : (asyncSystem cfg C handler store).Halted AsyncEvent.advances s)
    : (Pool.system cfg C).Halted Pool.Event.advances s.pool := by
  intro event hadvances
  cases event with
  | spurious t => cases hadvances
  | step t choice =>
    have hfree : s.occupied t = false := by
      cases t with
      | client name => rfl
      | worker worker =>
        rw [occupied, free_of_halted hv (fun worker => hhalted (.task worker) rfl)]
        rfl
    have hnone : s.step handler (.pool (.step t choice)) = none := hhalted (.pool (.step t choice)) hadvances
    rw [step, hfree, if_neg Bool.false_ne_true, stepPool, Option.map_eq_none_iff] at hnone
    exact hnone

theorem hung (hs : (asyncSystem cfg C handler store).Reachable s) {worker : Fin cfg.workerCount}
    (h : s.pool.Hung worker)
    : s.Hung worker := by
  obtain ⟨c, epoch, hpc, hasleep⟩ := h
  have hkind := (Pool.State.counted (valid hs).pool).kind (.worker worker)
  rw [hpc] at hkind
  obtain ⟨f, rfl⟩ := Option.isSome_iff_exists.mp hkind
  refine ⟨f, epoch, hpc, hasleep, foreign hs worker f ?_⟩
  rw [hpc]
  rfl

theorem halted_of_pool (hnone : ∀ worker, s.current worker = none)
    (hpool : (Pool.system cfg C).Halted Pool.Event.advances s.pool)
    : (asyncSystem cfg C handler store).Halted AsyncEvent.advances s := by
  intro event hadvances
  cases event with
  | invoke t command => cases hadvances
  | task worker =>
    have hstep : s.step handler (.task worker) = none := by
      rw [step, hnone worker]
    exact hstep
  | pool event =>
    have hnone : (Pool.system cfg C).step s.pool event = none := hpool event hadvances
    cases event with
    | spurious t => cases hadvances
    | step t choice =>
      have hstep : s.step handler (.pool (.step t choice)) = none := by
        rw [step, stepPool]
        split
        . rfl
        . rw [Option.map_eq_none_iff]
          exact hnone
      exact hstep

theorem AtRest.halted (h : s.AtRest) : (asyncSystem cfg C handler store).Halted AsyncEvent.advances s := by
  apply halted_of_pool _ h.pool.halted
  intro worker
  exact current_eq_none (by rw [h.pool.exited worker]; rfl)

structure WindsDown (handler : Handler ι) (store : ι → ρ) (s : AsyncState cfg C ι ρ) : Prop where
  halted : (asyncSystem cfg C handler store).Halted AsyncEvent.advances s →
    s.AtRest ∨ ∃ worker, s.Hung worker
  atRest : s.AtRest → (asyncSystem cfg C handler store).Halted AsyncEvent.advances s

end AsyncState

theorem async_system_winds_down {cfg : Config} {C ι ρ : Type} [Fintype C] [DecidableEq C] [DecidableEq ι]
    [IRegister ρ] {handler : Handler ι} {store : ι → ρ} {s : AsyncState cfg C ι ρ}
    (hs : (asyncSystem cfg C handler store).Reachable s) (hsignalled : s.pool.memory.history.signalled ≠ [])
    : s.WindsDown handler store := by
  have hv := AsyncState.valid hs
  constructor
  case atRest => exact AsyncState.AtRest.halted
  case halted =>
    intro hhalted
    rcases Pool.State.atRest_or_hung hv.pool hsignalled (AsyncState.pool_halted hv hhalted) with hrest | ⟨worker, hhung⟩
    . left
      have hfree := AsyncState.free_of_halted hv fun worker => hhalted (.task worker) rfl
      refine ⟨hrest, ?_, AsyncState.mutexes_eq_none hv hfree⟩
      intro item hitem hclosure
      exact Option.isSome_iff_exists.mpr (AsyncState.ready_of_settled hs hitem hclosure (hrest.settled item hitem))
    . exact .inr ⟨worker, AsyncState.hung hs hhung⟩

theorem async_system_winds_down_tiny
    : ∃ s : AsyncState Pool.tinyConfig Unit Unit ((category : Category) × Register category),
        s.pool.memory.pendingTasks = 1 ∧ s.order.length = 0 ∧ s.WindsDown ⟨[()]⟩ tinyStore := by
  let shutdown : List (Pool.Event Pool.tinyConfig Unit) :=
    .step (.client ()) (.call (.shutdown .drain)) :: Pool.Event.goes (.client ()) 9
  have hrun : ((asyncSystem Pool.tinyConfig Unit ⟨[()]⟩ tinyStore).run (.init tinyStore)
      (.invoke (.client ()) ⟨.add, ⟨.network, 1000, ascii "Network error"⟩⟩ ::
        (Pool.Event.goes (.client ()) 8 ++ shutdown).map .pool)).map
      (fun s => decide (s.pool.memory.pendingTasks = 1) && decide (s.order.length = 0) &&
        decide (s.pool.memory.history.signalled ≠ [])) = some true := by
    decide +kernel
  obtain ⟨s, hs, hp⟩ := System.exists_of_run _ hrun
  simp only [Bool.and_eq_true, decide_eq_true_eq] at hp
  exact ⟨s, hp.1.1, hp.1.2, async_system_winds_down hs hp.2⟩

end Vosp
