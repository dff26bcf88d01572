import Vosp.Error.AsyncStep

/-!
This module contains the proof that the asynchronous system refines the synchronous handler: replaying
the operations in the order in which they took effect gives the contents of every register and the
value of every future. The mutex of a register makes its read and write one step, and a task takes
effect at most once because the pool executes it at most once.
-/

namespace Vosp

open Pool (Config Thread Choice Frame Outcome TaskItem)

variable {cfg : Config} {C ι ρ : Type} [IRegister ρ]

namespace Handler

structure First (handler : Handler ι) (store : ι → ρ) (command : Command) (index : Nat) (i : ι) : Prop where
  register : handler.registers[index]? = some i
  category : IRegister.category (store i) = command.category
  before : ∀ (m : Nat) (j : ι), m < index → handler.registers[m]? = some j →
    IRegister.category (store j) ≠ command.category

theorem First.unique {handler : Handler ι} {store : ι → ρ} {command command' : Command} {index index' : Nat}
    {i : ι} (h : handler.First store command index i) (h' : handler.First store command' index' i)
    : index = index' := by
  have hcommands : command.category = command'.category := h.category.symm.trans h'.category
  rcases Nat.lt_trichotomy index index' with hlt | heq | hgt
  . exact absurd h'.category (hcommands ▸ h'.before index i hlt h.register ∘ (hcommands ▸ ·))
  . exact heq
  . exact absurd h.category (hcommands ▸ h.before index' i hgt h'.register ∘ (hcommands ▸ ·))

theorem First.mono {handler : Handler ι} {store store' : ι → ρ} {command : Command} {index : Nat} {i : ι}
    (h : handler.First store command index i)
    (hcategory : ∀ j, IRegister.category (store' j) = IRegister.category (store j))
    : handler.First store' command index i where
  register := h.register
  category := (hcategory i).trans h.category
  before m j hm hj := by
    rw [hcategory]
    exact h.before m j hm hj

variable [DecidableEq ι]

theorem First.call_eq {handler : Handler ι} {store : ι → ρ} {command : Command} {index : Nat} {i : ι}
    (h : handler.First store command index i)
    : handler.call store command =
        ((IRegister.invoke (store i) command).1,
          Function.update store i (IRegister.invoke (store i) command).2) := by
  apply call_of_route
  rw [← h.category]
  apply route_eq_some h.register
  intro m j hm hj
  rw [h.category]
  exact h.before m j hm hj

theorem run_concat (handler : Handler ι) (store : ι → ρ) (commands : List Command) (command : Command)
    : handler.run store (commands ++ [command]) =
        ((handler.run store commands).1 ++ [(handler.call (handler.run store commands).2 command).1],
          (handler.call (handler.run store commands).2 command).2) := by
  induction commands generalizing store with
  | nil => rfl
  | cons first commands ih => simp only [List.cons_append, run, ih]

end Handler

def Body.Ok (handler : Handler ι) (store : ι → ρ) (command : Command) (body : Body ι ρ) : Prop :=
  match body with
  | .route index => ∀ (m : Nat) (j : ι), m < index → handler.registers[m]? = some j →
    IRegister.category (store j) ≠ command.category
  | .lock index i | .read index i => handler.First store command index i
  | .write index i result r => handler.First store command index i ∧
    IRegister.invoke (store i) command = (result, r)
  | .unlock _ _ | .ret _ => True

theorem Body.Ok.mono {handler : Handler ι} {store store' : ι → ρ} {command : Command} {body : Body ι ρ}
    (h : body.Ok handler store command)
    (hcategory : ∀ j, IRegister.category (store' j) = IRegister.category (store j))
    (hsame : ∀ index i result r, body = .write index i result r → store' i = store i)
    : body.Ok handler store' command := by
  cases body with
  | route index =>
    intro m j hm hj
    rw [hcategory]
    exact h m j hm hj
  | lock index i => exact Handler.First.mono h hcategory
  | read index i => exact Handler.First.mono h hcategory
  | write index i result r =>
    refine ⟨h.1.mono hcategory, ?_⟩
    rw [hsame index i result r rfl]
    exact h.2
  | unlock | ret => trivial

namespace AsyncState

variable [Fintype C] [DecidableEq C] [DecidableEq ι]

structure Valid (handler : Handler ι) (store : ι → ρ) (s : AsyncState cfg C ι ρ) : Prop where
  pool : (Pool.system cfg C).Reachable s.pool
  fresh : ∀ id, s.pool.memory.history.nextId ≤ id → s.closure id = none
  owned : Mutex.Owned (fun worker => (s.body worker).holds) s.mutexes
  idle : ∀ worker, s.current worker = none → s.body worker = .route 0
  routed : ∀ worker f command, s.current worker = some (f, command) →
    (s.body worker).Ok handler s.store command
  replay : handler.run store (s.order.map Applied.command) = (s.order.map Applied.result, s.store)
  done : ∀ entry ∈ s.order, s.closure entry.id = some entry.command ∧ s.Done entry.id (.result entry.result)
  applied : ∀ id command outcome, s.closure id = some command → s.Done id outcome →
    ∃ result, outcome = .result result ∧ ⟨id, command, result⟩ ∈ s.order
  once : (s.order.map Applied.id).Nodup

namespace Valid

variable {handler : Handler ι} {store : ι → ρ} {s s' : AsyncState cfg C ι ρ} {worker : Fin cfg.workerCount}
  {f : Frame} {command : Command} {body : Body ι ρ}

theorem init (handler : Handler ι) (store : ι → ρ)
    : Valid handler store (AsyncState.init store : AsyncState cfg C ι ρ) where
  pool := .init
  fresh _ _ := rfl
  owned := .none fun _ _ => rfl
  idle _ _ := rfl
  routed worker f command h := by cases h
  replay := rfl
  done := nofun
  applied _ _ _ h := by cases h
  once := .nil

theorem pool_step (hv : s.Valid handler store) {event : Pool.Event cfg C} {p : Pool.State cfg C}
    (hfree : ∀ t choice, event = .step t choice → s.occupied t = false) (hpool : s.pool.step event = some p)
    {closure : Nat → Option Command}
    (hold : ∀ id, id < s.pool.memory.history.nextId → closure id = s.closure id)
    (hnew : ∀ id, p.memory.history.nextId ≤ id → closure id = none)
    : Valid handler store { s with pool := p, closure := closure } := by
  have hcurrent : ∀ worker, s.body worker = .route 0 ∨
      AsyncState.current { s with pool := p, closure := closure } worker = s.current worker := by
    intro worker
    by_cases hself : ∃ choice, event = .step (.worker worker) choice
    . obtain ⟨choice, rfl⟩ := hself
      have hoccupied := hfree _ _ rfl
      exact .inl (hv.idle worker (by simpa [occupied] using hoccupied))
    . have hpc : p.pc (.worker worker) = s.pool.pc (.worker worker) := by
        cases Pool.State.step_cases hpool with
        | spurious => rfl
        | thread t choice =>
          apply Pool.State.pc_of_ne
          intro heq
          subst heq
          exact hself ⟨choice, rfl⟩
      right
      rw [current_eq, current_eq, hpc]
      cases hframe : (s.pool.pc (.worker worker)).bodyFrame with
      | none => rfl
      | some f =>
        simp only [Option.bind_some]
        rw [hold _ (Pool.State.lt_nextId_of_hands hv.pool (Pool.Pc.hands_of_bodyFrame hframe))]
  constructor
  case pool => exact hv.pool.next hpool
  case fresh => exact hnew
  case owned => exact hv.owned
  case idle =>
    intro worker hnone
    cases hcurrent worker with
    | inl hroute => exact hroute
    | inr hsame => exact hv.idle worker (hsame ▸ hnone)
  case routed =>
    intro worker f command hsome
    cases hcurrent worker with
    | inl hroute =>
      simp only [hroute]
      intro m j hm
      cases hm
    | inr hsame => exact hv.routed worker f command (hsame ▸ hsome)
  case replay => exact hv.replay
  case done =>
    intro entry hentry
    obtain ⟨hclosure, hdone⟩ := hv.done entry hentry
    refine ⟨?_, done_pool_step hv.idle hfree hpool rfl rfl hdone⟩
    rw [← hclosure]
    exact hold _ (lt_nextId_of_done hv.pool hdone)
  case applied =>
    intro id command outcome hclosure hdone
    have hp : AsyncState.pool { s with pool := p, closure := closure } = p := rfl
    rcases done_before_pool_step hv.idle hfree hpool hp rfl hv.pool hdone with hbefore | ⟨hnone, hlt⟩
    . apply hv.applied id command outcome _ hbefore
      rw [← hold id (lt_nextId_of_done hv.pool hbefore)]
      exact hclosure
    . simp only [hold id hlt, hnone] at hclosure
      cases hclosure
  case once => exact hv.once

theorem body_step (hv : s.Valid handler store) (hcurrent : s.current worker = some (f, command))
    (mutexes : Nat → Option (Fin cfg.workerCount)) (hok : body.Ok handler s.store command)
    (houtcome : body.outcome = (s.body worker).outcome)
    (howned : Mutex.Owned (fun other => (Function.update s.body worker body other).holds) mutexes)
    : Valid handler store ({ s with mutexes := mutexes }.setBody worker body) := by
  constructor
  case pool => exact hv.pool
  case fresh => exact hv.fresh
  case owned => exact howned
  case idle =>
    intro other hnone
    have hne : other ≠ worker := by
      rintro rfl
      exact absurd (hcurrent.symm.trans hnone) nofun
    exact (Function.update_of_ne hne _ _).trans (hv.idle other hnone)
  case routed =>
    intro other f' command' hsome
    by_cases hother : other = worker
    . subst hother
      cases hcurrent.symm.trans hsome
      rw [body_setBody]
      exact hok
    . have hbody : ({ s with mutexes := mutexes }.setBody worker body).body other = s.body other :=
        Function.update_of_ne hother _ _
      rw [hbody]
      exact hv.routed other f' command' hsome
  case replay => exact hv.replay
  case done =>
    intro entry hentry
    obtain ⟨hclosure, hdone⟩ := hv.done entry hentry
    exact ⟨hclosure, (done_setBody_of_outcome (s := { s with mutexes := mutexes }) houtcome).mpr hdone⟩
  case applied =>
    intro id command outcome hclosure hdone
    have hbefore := (done_setBody_of_outcome (s := { s with mutexes := mutexes }) houtcome).mp hdone
    exact hv.applied id command outcome hclosure hbefore
  case once => exact hv.once

theorem apply_step (hv : s.Valid handler store) (hcurrent : s.current worker = some (f, command))
    (store' : ι → ρ) {result : OperationResult} (hold : (s.body worker).outcome = none)
    (houtcome : body.outcome = some (.result result)) (hok : body.Ok handler store' command)
    (hcall : handler.call s.store command = (result, store'))
    (hother : ∀ other f' command', other ≠ worker → s.current other = some (f', command') →
      (s.body other).Ok handler store' command')
    (howned : Mutex.Owned (fun other => (Function.update s.body worker body other).holds) s.mutexes)
    : Valid handler store (({ s with store := store' }.apply f command result).setBody worker body) := by
  obtain ⟨hframe, hclosure⟩ := current_eq_some.mp hcurrent
  have hadd : ∀ id outcome,
      (({ s with store := store' }.apply f command result).setBody worker body).Done id outcome ↔
        s.Done id outcome ∨ f.item.id = id ∧ outcome = .result result := by
    intro id outcome
    exact done_setBody_add (s := { s with store := store' }.apply f command result) hframe hold houtcome
  constructor
  case pool => exact hv.pool
  case fresh => exact hv.fresh
  case owned => exact howned
  case idle =>
    intro other hnone
    have hne : other ≠ worker := by
      rintro rfl
      exact absurd (hcurrent.symm.trans hnone) nofun
    exact (Function.update_of_ne hne _ _).trans (hv.idle other hnone)
  case routed =>
    intro other f' command' hsome
    by_cases hsame : other = worker
    . subst hsame
      cases hcurrent.symm.trans hsome
      rw [body_setBody]
      exact hok
    . have hbody : (({ s with store := store' }.apply f command result).setBody worker body).body other =
          s.body other :=
        Function.update_of_ne hsame _ _
      rw [hbody]
      exact hother other f' command' hsame hsome
  case replay =>
    simp only [apply, setBody, List.map_append, List.map_cons, List.map_nil]
    rw [Handler.run_concat, hv.replay, hcall]
  case done =>
    intro entry hentry
    rw [hadd]
    rcases List.mem_append.mp hentry with hbefore | hnew
    . obtain ⟨hclosure', hdone⟩ := hv.done entry hbefore
      exact ⟨hclosure', .inl hdone⟩
    . rw [List.mem_singleton] at hnew
      subst hnew
      exact ⟨hclosure, .inr ⟨rfl, rfl⟩⟩
  case applied =>
    intro id command' outcome hclosure' hdone
    rcases (hadd id outcome).mp hdone with hbefore | ⟨rfl, rfl⟩
    . obtain ⟨result', houtcome', hmem⟩ := hv.applied id command' outcome hclosure' hbefore
      exact ⟨result', houtcome', List.mem_append_left _ hmem⟩
    . cases hclosure.symm.trans hclosure'
      exact ⟨result, rfl, List.mem_append_right _ (List.mem_singleton.mpr rfl)⟩
  case once =>
    simp only [apply, setBody, List.map_append, List.map_cons, List.map_nil]
    rw [← List.concat_eq_append, List.nodup_concat]
    refine ⟨?_, hv.once⟩
    intro hmem
    obtain ⟨entry, hentry, hid⟩ := List.mem_map.mp hmem
    have hdone := (hv.done entry hentry).2
    rw [hid] at hdone
    exact not_done_of_bodyFrame hv.pool hframe hold hdone

theorem ret_step (hv : s.Valid handler store) (hcurrent : s.current worker = some (f, command))
    {result : OperationResult} (hbody : s.body worker = .ret result) {p : Pool.State cfg C}
    (hpool : s.pool.step (.step (.worker worker) (.ret (.result result))) = some p)
    : Valid handler store ({ s with pool := p }.setBody worker (.route 0)) := by
  obtain ⟨hframe, hclosure⟩ := current_eq_some.mp hcurrent
  have hp := Pool.State.step_ret hframe hpool
  have hpc : p.pc (.worker worker) = .complete f (.result result) := by
    rw [hp]
    exact Pool.State.pc_self
  have hpcs : ∀ t, t ≠ .worker worker → p.pc t = s.pool.pc t := by
    intro t ht
    rw [hp]
    exact Pool.State.pc_of_ne ht
  have hmemory : p.memory = s.pool.memory := by rw [hp]
  have hothers : ∀ other, other ≠ worker →
      ({ s with pool := p }.setBody worker (.route 0)).current other = s.current other := by
    intro other hne
    rw [current_eq, current_eq]
    simp only [setBody, hpcs (.worker other) (by simpa using hne)]
  have hdone : ∀ id outcome,
      ({ s with pool := p }.setBody worker (.route 0)).Done id outcome ↔ s.Done id outcome := by
    intro id outcome
    have hrunning : ∀ t, ({ s with pool := p }.setBody worker (.route 0)).Running t id outcome ↔
        s.Running t id outcome := by
      intro t
      by_cases ht : t = .worker worker
      . subst ht
        rw [running_of_bodyFrame hframe, hbody]
        simp only [Running, setBody, hpc, Pool.Pc.bodyFrame, Pool.Pc.completing, Body.outcome]
        simp [and_comm, eq_comm]
      . rw [running_setBody_of_ne ht]
        simp only [Running, hpcs t ht]
        exact Iff.rfl
    apply or_congr _ (exists_congr hrunning)
    simp only [setBody, hmemory]
  have hreachable : (Pool.system cfg C).Reachable p :=
    hv.pool.next (e := .step (.worker worker) (.ret (.result result))) hpool
  constructor
  case pool => exact hreachable
  case fresh =>
    intro id hle
    apply hv.fresh
    simpa [setBody, hmemory] using hle
  case owned =>
    apply hv.owned.frame
    intro other
    by_cases hother : other = worker
    . subst hother
      funext index
      simp [setBody, hbody, Body.holds]
    . simp [setBody, hother]
  case idle =>
    intro other hnone
    by_cases hother : other = worker
    . subst hother
      exact body_setBody
    . rw [hothers other hother] at hnone
      exact (Function.update_of_ne hother _ _).trans (hv.idle other hnone)
  case routed =>
    intro other f' command' hsome
    by_cases hother : other = worker
    . subst hother
      rw [body_setBody]
      intro m j hm
      cases hm
    . rw [hothers other hother] at hsome
      have hsame : ({ s with pool := p }.setBody worker (.route 0)).body other = s.body other :=
        Function.update_of_ne hother _ _
      rw [hsame]
      exact hv.routed other f' command' hsome
  case replay => exact hv.replay
  case done =>
    intro entry hentry
    rw [hdone]
    exact hv.done entry hentry
  case applied =>
    intro id command' outcome hclosure' hd
    rw [hdone] at hd
    exact hv.applied id command' outcome hclosure' hd
  case once => exact hv.once

theorem owned_frame (hv : s.Valid handler store) (hholds : body.holds = (s.body worker).holds)
    : Mutex.Owned (fun other => (Function.update s.body worker body other).holds) s.mutexes := by
  apply hv.owned.frame
  intro other
  by_cases hother : other = worker
  . subst hother
    rw [Function.update_self, hholds]
  . rw [Function.update_of_ne hother]

theorem ne_of_write (hv : s.Valid handler store) {other : Fin cfg.workerCount} {f' : Frame}
    {command' : Command} {index index' : Nat} {i i' : ι} {result result' : OperationResult} {r r' : ρ}
    (hcurrent : s.current worker = some (f, command)) (hbody : s.body worker = .write index i result r)
    (hcurrent' : s.current other = some (f', command')) (hbody' : s.body other = .write index' i' result' r')
    (hne : other ≠ worker)
    : i' ≠ i := by
  rintro rfl
  have hok := hv.routed worker f command hcurrent
  have hok' := hv.routed other f' command' hcurrent'
  rw [hbody] at hok
  rw [hbody'] at hok'
  have hindex := hok.1.unique hok'.1
  subst hindex
  have hholds : (s.body worker).holds index = true := by simp [hbody, Body.holds]
  have hholds' : (s.body other).holds index = true := by simp [hbody', Body.holds]
  exact hne (hv.owned.unique hholds' hholds)

theorem write_step (hv : s.Valid handler store) (hcurrent : s.current worker = some (f, command))
    {index : Nat} {i : ι} {result : OperationResult} {r : ρ} (hbody : s.body worker = .write index i result r)
    : Valid handler store
        (({ s with store := Function.update s.store i r }.apply f command result).setBody worker
          (.unlock index result)) := by
  have hok := hv.routed worker f command hcurrent
  rw [hbody] at hok
  obtain ⟨hfirst, hinvoke⟩ := hok
  apply hv.apply_step hcurrent
  . rw [hbody]
    rfl
  . rfl
  . trivial
  . rw [hfirst.call_eq, hinvoke]
  . intro other f' command' hne hcurrent'
    apply (hv.routed other f' command' hcurrent').mono
    . intro j
      by_cases hj : j = i
      . subst hj
        rw [Function.update_self]
        have hcategory := IRegister.category_invoke (s.store j) command
        rwa [hinvoke] at hcategory
      . rw [Function.update_of_ne hj]
    . intro index' i' result' r' hbody'
      exact Function.update_of_ne (hv.ne_of_write hcurrent hbody hcurrent' hbody' hne) _ _
  . apply hv.owned_frame
    rw [hbody]
    rfl

theorem missing_step (hv : s.Valid handler store) (hcurrent : s.current worker = some (f, command))
    {index : Nat} (hbody : s.body worker = .route index) (hnone : handler.registers[index]? = none)
    : Valid handler store
        ((s.apply f command (.error (missingRegister command.category))).setBody worker
          (.ret (.error (missingRegister command.category)))) := by
  have hok := hv.routed worker f command hcurrent
  rw [hbody] at hok
  apply hv.apply_step hcurrent s.store
  . rw [hbody]
    rfl
  . rfl
  . trivial
  . apply Handler.call_of_route_eq_none
    rw [Handler.route_eq_none_iff]
    intro i hi
    obtain ⟨m, hm, rfl⟩ := List.getElem_of_mem hi
    apply hok m _ (Nat.lt_of_lt_of_le hm (List.getElem?_eq_none_iff.mp hnone))
    exact List.getElem?_eq_getElem hm
  . intro other f' command' _ hcurrent'
    exact hv.routed other f' command' hcurrent'
  . apply hv.owned_frame
    rw [hbody]
    rfl

theorem step (hv : s.Valid handler store) {event : AsyncEvent cfg C} (h : s.step handler event = some s')
    : s'.Valid handler store := by
  cases step_cases h with
  | @invoke t p command hfree hpool =>
    have hfree' : ∀ u choice, Pool.Event.step t (.call .submit) = .step u choice → s.occupied u = false := by
      rintro u choice heq
      cases heq
      exact hfree
    apply hv.pool_step hfree' hpool
    . intro id hlt
      exact Function.update_of_ne (Nat.ne_of_lt hlt) _ _
    . intro id hle
      have hnext : s.pool.memory.history.nextId < p.memory.history.nextId := by
        rw [Pool.State.nextId_of_submit hpool]
        exact Nat.lt_succ_self _
      rw [Function.update_of_ne (Nat.ne_of_gt (Nat.lt_of_lt_of_le hnext hle))]
      exact hv.fresh id (Nat.le_of_lt (Nat.lt_of_lt_of_le hnext hle))
  | pool hfree hpool =>
    apply hv.pool_step hfree hpool (fun _ _ => rfl)
    intro id hle
    exact hv.fresh id (Nat.le_trans (Pool.State.nextId_le hpool) hle)
  | missing hcurrent hbody hnone => exact hv.missing_step hcurrent hbody hnone
  | skip hcurrent hbody hi hne =>
    have hok := hv.routed _ _ _ hcurrent
    rw [hbody] at hok
    apply hv.body_step hcurrent
    . intro m j hm hj
      cases Nat.lt_or_eq_of_le (Nat.le_of_lt_succ hm) with
      | inl hlt => exact hok m j hlt hj
      | inr heq =>
        subst heq
        cases hi.symm.trans hj
        exact hne
    . rw [hbody]
      rfl
    . apply hv.owned_frame
      rw [hbody]
      rfl
  | route hcurrent hbody hi heq =>
    have hok := hv.routed _ _ _ hcurrent
    rw [hbody] at hok
    apply hv.body_step hcurrent
    . exact ⟨hi, heq, hok⟩
    . rw [hbody]
      rfl
    . apply hv.owned_frame
      rw [hbody]
      rfl
  | @lock worker f command index i hcurrent hbody hfree =>
    have hok := hv.routed _ _ _ hcurrent
    rw [hbody] at hok
    apply hv.body_step hcurrent (Function.update s.mutexes index (some worker))
    . exact hok
    . rw [hbody]
      rfl
    . apply hv.owned.lock hfree (t := worker)
      . intro b
        simp [hbody, Body.holds, eq_comm]
      . intro other hother
        rw [Function.update_of_ne hother]
  | read hcurrent hbody =>
    have hok := hv.routed _ _ _ hcurrent
    rw [hbody] at hok
    apply hv.body_step hcurrent
    . exact ⟨hok, rfl⟩
    . rw [hbody]
      rfl
    . apply hv.owned_frame
      rw [hbody]
      rfl
  | write hcurrent hbody => exact hv.write_step hcurrent hbody
  | @unlock worker f command index result hcurrent hbody =>
    apply hv.body_step hcurrent (Function.update s.mutexes index none)
    . trivial
    . rw [hbody]
      rfl
    . apply hv.owned.unlock (t := worker)
      . simp [hbody, Body.holds]
      . intro b
        simp [hbody, Body.holds, eq_comm]
      . intro other hother
        rw [Function.update_of_ne hother]
  | ret hcurrent hbody hpool => exact hv.ret_step hcurrent hbody hpool

end Valid

end AsyncState

end Vosp
