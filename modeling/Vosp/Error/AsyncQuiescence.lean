import Vosp.Error.AsyncWindDown
import Vosp.Pool.Quiescence

/-!
This module says when an asynchronous `ErrorSystem` stops although nobody shuts down its pool. The operations and the
mutexes of the registers add no way to those of the pool.
-/

namespace Vosp

open Pool (Config Thread Event)

namespace AsyncState

variable {cfg : Config} {C ι ρ : Type} [Fintype C] [DecidableEq C] [DecidableEq ι] [IRegister ρ]
  {handler : Handler ι} {store : ι → ρ} {s : AsyncState cfg C ι ρ}

def loses (s : AsyncState cfg C ι ρ) (event : AsyncEvent cfg C) : Bool :=
  match event with
  | .pool event => s.pool.loses event
  | .invoke .. | .task _ => false

theorem pool_via (hs : (asyncSystem cfg C handler store).ReachableVia (fun s event => s.loses event = false) s)
    : (Pool.system cfg C).ReachableVia (fun s event => s.loses event = false) s.pool := by
  apply System.ReachableVia.invariant _ _ hs
  . exact .init
  . intro s event s' _ h hok hstep
    cases step_cases hstep with
    | @invoke t p command hfree hpool =>
      have hcall : s.pool.loses (.step t (.call .submit)) = false := rfl
      exact .step h hcall hpool
    | pool hfree hpool => exact .step h hok hpool
    | @ret worker f command result p hcurrent hbody hpool =>
      have hret : s.pool.loses (.step (.worker worker) (.ret (.result result))) = false := rfl
      exact .step h hret hpool
    | missing | skip | route | lock | read | write | unlock => exact h

structure Quiescent (s : AsyncState cfg C ι ρ) : Prop where
  pool : s.pool.Quiescent
  futures : ∀ item ∈ s.pool.memory.history.accepted, ∀ command, s.closure item.id = some command →
    (∃ result, s.pool.memory.promise item.id = some (.result result) ∧ ⟨item.id, command, result⟩ ∈ s.order) ∨
      s.pool.memory.promise item.id = some (.result (.error Pool.taskCancelledError)) ∧
        ∀ entry ∈ s.order, entry.id ≠ item.id
  order : (s.order.map Applied.id).Perm
    ((s.uncancelled.filter fun item => (s.closure item.id).isSome).map fun item => item.id)
  mutexes : ∀ index, s.mutexes index = none

theorem quiescent_of_halted (hs : (asyncSystem cfg C handler store).Reachable s) (hpool : s.pool.Quiescent)
    (hhalted : (asyncSystem cfg C handler store).Halted AsyncEvent.advances s)
    : s.Quiescent where
  pool := hpool
  futures item hitem _ hclosure := future_of_settled hs hitem hclosure (hpool.settled item hitem)
  order := order_perm_of_idle (valid hs) hpool.idle
  mutexes := mutexes_eq_none (valid hs) (free_of_halted (valid hs) fun worker => hhalted (.task worker) rfl)

theorem Quiescent.halted (h : s.Quiescent) : (asyncSystem cfg C handler store).Halted AsyncEvent.advances s := by
  apply halted_of_pool _ h.pool.halted
  intro worker
  obtain ⟨⟨observed, hpc⟩, -⟩ := h.pool.workers worker
  exact current_eq_none (by rw [hpc]; rfl)

inductive Stopped (s : AsyncState cfg C ι ρ) : Prop where
  | done (hquiescent : s.Quiescent)
  | hung (worker : Fin cfg.workerCount) (hhung : s.Hung worker)
  | stranded (hstranded : s.pool.Stranded)
  | starved (hstarved : s.pool.Starved)

theorem stopped_of_halted (hs : (asyncSystem cfg C handler store).Reachable s)
    (hrunning : s.pool.memory.isStopping = false)
    (hhalted : (asyncSystem cfg C handler store).Halted AsyncEvent.advances s)
    : s.Stopped := by
  have hv := valid hs
  cases Pool.State.stopped_of_halted hv.pool hrunning (pool_halted hv hhalted) with
  | done hquiescent => exact .done (quiescent_of_halted hs hquiescent hhalted)
  | hung i hhung => exact .hung i (hung hs hhung)
  | stranded hstranded => exact .stranded hstranded
  | starved hstarved => exact .starved hstarved

structure StopsWhenDone (handler : Handler ι) (store : ι → ρ) (s : AsyncState cfg C ι ρ) : Prop where
  halted : (asyncSystem cfg C handler store).Halted AsyncEvent.advances s → s.Stopped
  quiescent : s.Quiescent → (asyncSystem cfg C handler store).Halted AsyncEvent.advances s
  lossless : (asyncSystem cfg C handler store).ReachableVia (fun s event => s.loses event = false) s →
    (asyncSystem cfg C handler store).Halted AsyncEvent.advances s → s.Quiescent ∨ ∃ worker, s.Hung worker
  replay : handler.run store (s.order.map Applied.command) = (s.order.map Applied.result, s.store)

end AsyncState

theorem async_system_stops_when_done {cfg : Config} {C ι ρ : Type} [Fintype C] [DecidableEq C] [DecidableEq ι]
    [IRegister ρ] {handler : Handler ι} {store : ι → ρ} {s : AsyncState cfg C ι ρ}
    (hs : (asyncSystem cfg C handler store).Reachable s) (hrunning : s.pool.memory.isStopping = false)
    : s.StopsWhenDone handler store := by
  have hv := AsyncState.valid hs
  constructor
  case halted => exact AsyncState.stopped_of_halted hs hrunning
  case quiescent => exact AsyncState.Quiescent.halted
  case replay => exact hv.replay
  case lossless =>
    intro hlossless hhalted
    have hpool := AsyncState.pool_halted hv hhalted
    rcases Pool.State.quiescent_or_hung (AsyncState.pool_via hlossless) hrunning hpool with hquiescent | ⟨worker, hhung⟩
    . exact .inl (AsyncState.quiescent_of_halted hs hquiescent hhalted)
    . exact .inr ⟨worker, AsyncState.hung hs hhung⟩

theorem async_system_stops_when_done_tiny
    : ∃ s : AsyncState Pool.tinyConfig Unit Unit ((category : Category) × Register category),
        (asyncSystem Pool.tinyConfig Unit ⟨[()]⟩ tinyStore).ReachableVia (fun s event => s.loses event = false) s ∧
          s.order.length = 1 ∧ s.pool.memory.stateSleeper (.worker (0 : Fin 1)) = true ∧
            s.StopsWhenDone ⟨[()]⟩ tinyStore := by
  let worker : Thread Pool.tinyConfig Unit := .worker (0 : Fin 1)
  let submits : List (Event Pool.tinyConfig Unit) :=
    Event.goes (.client ()) 7 ++ .step (.client ()) (.unblock worker) :: Event.goes (.client ()) 1
  have hrun : (((asyncSystem Pool.tinyConfig Unit ⟨[()]⟩ tinyStore).restrict (fun s event => !s.loses event)).run
      (.init tinyStore)
      ((Event.goes worker 4).map .pool ++
        .invoke (.client ()) ⟨.add, ⟨.network, 1000, ascii "Network error"⟩⟩ ::
        (submits ++ Event.goes worker 11).map .pool ++ List.replicate 6 (.task (0 : Fin 1)) ++
        (Event.goes worker 8).map .pool)).map
      (fun s => s.order.length == 1 && !s.pool.memory.isStopping &&
        s.pool.memory.stateSleeper (.worker (0 : Fin 1))) = some true := by
    decide +kernel
  obtain ⟨s, hs, hp⟩ := System.exists_via_of_run _ hrun
  simp only [Bool.and_eq_true, Bool.not_eq_true', beq_iff_eq] at hp
  obtain ⟨⟨horder, hrunning⟩, hasleep⟩ := hp
  exact ⟨s, hs.mono (by simp), horder, hasleep, async_system_stops_when_done hs.reachable hrunning⟩

end Vosp
