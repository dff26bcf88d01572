import Vosp.Error.AsyncSystem
import Vosp.Error.Routing
import Vosp.Lib.Mutex
import Vosp.Pool.Order

/-!
This module says once what a step of the asynchronous system can do, and where in the pool an operation
is that took effect: `Done` are the outcomes of the tasks that have run, or whose body is past the
operation on the register.
-/

namespace Vosp

open Pool (Config Thread Choice Frame Outcome TaskItem)

variable {cfg : Config} {C ι ρ : Type}

namespace Pool

def Pc.bodyFrame (pc : Pc cfg) : Option Frame :=
  match pc with
  | .resting c _ => c
  | _ => none

def Pc.completing (pc : Pc cfg) : Option (TaskItem × Outcome) :=
  match pc with
  | .complete f outcome => some (f.item, outcome)
  | _ => none

theorem Pc.hands_of_bodyFrame {pc : Pc cfg} {f : Frame} (h : pc.bodyFrame = some f) : f.item ∈ pc.hands := by
  cases pc
  case resting c last =>
    cases h
    exact List.mem_cons_self
  all_goals cases h

theorem Pc.hands_of_completing {pc : Pc cfg} {item : TaskItem} {outcome : Outcome}
    (h : pc.completing = some (item, outcome))
    : item ∈ pc.hands := by
  cases pc
  case complete =>
    cases h
    exact List.mem_cons_self
  all_goals cases h

theorem Pc.completing_eq_none {pc : Pc cfg} {f : Frame} (h : pc.bodyFrame = some f)
    : pc.completing = none := by
  cases pc
  all_goals first | rfl | cases h

namespace Edge

variable {t : Thread cfg C} {m : Memory cfg C} {pc pc' : Pc cfg} {op : Op cfg} {item : TaskItem}
  {outcome : Outcome}

theorem completing (h : Edge t m pc op pc') (hpc : pc'.completing = some (item, outcome))
    : pc' = pc ∨ ∃ f, pc.bodyFrame = some f ∧ f.item = item := by
  cases h
  case ret =>
    cases hpc
    exact .inr ⟨_, rfl, rfl⟩
  all_goals first | exact .inl rfl | cases hpc

theorem completed (h : Edge t m pc op pc') (hpc : pc.completing = some (item, outcome))
    : pc' = pc ∨ op = .complete item outcome := by
  cases h
  case complete =>
    cases hpc
    exact .inr rfl
  all_goals first | exact .inl rfl | cases hpc

theorem completing_of_complete (h : Edge t m pc (.complete item outcome) pc')
    : pc.completing = some (item, outcome) := by
  cases h
  rfl

end Edge

theorem Effect.executed_eq [DecidableEq C] {t : Thread cfg C} {choice : Choice cfg C} {op : Op cfg}
    {m m' : Memory cfg C} (h : Effect t choice op m m') (hop : ∀ item outcome, op ≠ .complete item outcome)
    : m'.history.executed = m.history.executed := by
  cases h
  case complete => exact absurd rfl (hop _ _)
  case cancel hcancel =>
    obtain ⟨_, _, rfl⟩ := Memory.cancel_eq hcancel
    rfl
  all_goals rfl

theorem Effect.executed_of_complete [DecidableEq C] {t : Thread cfg C} {choice : Choice cfg C}
    {m m' : Memory cfg C} {item : TaskItem} {outcome : Outcome}
    (h : Effect t choice (.complete item outcome) m m')
    : m'.history.executed = m.history.executed ++ [(item, outcome)] := by
  cases h with
  | complete hcomplete =>
    obtain ⟨_, _, rfl⟩ := Memory.complete_eq hcomplete
    rfl

theorem Effect.nextId_le [DecidableEq C] {t : Thread cfg C} {choice : Choice cfg C} {op : Op cfg}
    {m m' : Memory cfg C} (h : Effect t choice op m m')
    : m.history.nextId ≤ m'.history.nextId := by
  by_cases hcall : ∃ request, op = .call request
  . obtain ⟨request, rfl⟩ := hcall
    cases h
    exact Nat.le_add_right _ _
  . simp only [not_exists] at hcall
    rw [h.nextId_eq hcall]

theorem Code.exec_call {κ : Type} [Fintype C] [DecidableEq C] {t : Thread cfg C} {m m' : Memory cfg C}
    {code : Code cfg C κ} {request : Request} {k : κ} (h : code.exec t m (.call request) = some (m', k))
    : m' = m.startCall request := by
  cases code
  all_goals cases h
  all_goals rfl

namespace State

variable [Fintype C] [DecidableEq C] {s : State cfg C}

theorem nextId_le {event : Event cfg C} {p : State cfg C} (h : s.step event = some p)
    : s.memory.history.nextId ≤ p.memory.history.nextId := by
  cases step_cases h with
  | spurious => exact Nat.le_refl _
  | thread t choice hedge heffect => exact heffect.nextId_le

theorem nextId_of_submit {t : Thread cfg C} {p : State cfg C} (h : s.step (.step t (.call .submit)) = some p)
    : p.memory.history.nextId = s.memory.history.nextId + 1 := by
  simp only [step, Option.map_eq_some_iff] at h
  obtain ⟨⟨m', pc'⟩, hexec, rfl⟩ := h
  simp only [Code.exec_call hexec]
  rfl

theorem lt_nextId_of_accepted (hs : (system cfg C).Reachable s) {item : TaskItem}
    (h : item ∈ s.memory.history.accepted)
    : item.id < s.memory.history.nextId := by
  rw [← Nat.not_le]
  intro hle
  have hzero := (fresh hs item.id).2 hle
  rw [sent, idCount_append] at hzero
  have hcount : 0 < idCount item.id s.memory.history.accepted :=
    List.count_pos_iff.mpr (List.mem_map.mpr ⟨item, h, rfl⟩)
  omega

theorem claimed_of_hands (hs : (system cfg C).Reachable s) {t : Thread cfg C} {item : TaskItem}
    (h : item ∈ (s.pc t).hands)
    : ∃ worker, t = .worker worker ∧ s.At item (.claimed worker) := by
  cases t with
  | worker worker => exact ⟨worker, rfl, h⟩
  | client name =>
    rw [Pc.hands_eq_nil ((counted hs).kind (.client name))] at h
    cases h

theorem lt_nextId_of_hands (hs : (system cfg C).Reachable s) {t : Thread cfg C} {item : TaskItem}
    (h : item ∈ (s.pc t).hands)
    : item.id < s.memory.history.nextId := by
  obtain ⟨worker, -, hclaimed⟩ := claimed_of_hands hs h
  exact lt_nextId_of_accepted hs (mem_accepted hs hclaimed)

theorem step_ret {t : Thread cfg C} {outcome : Outcome} {p : State cfg C} {f : Frame}
    (hframe : (s.pc t).bodyFrame = some f) (h : s.step (.step t (.ret outcome)) = some p)
    : p = { s with pc := Function.update s.pc t (.complete f outcome) } := by
  have hpc : ∃ last, s.pc t = .resting (some f) last := by
    generalize s.pc t = pc at hframe
    cases pc
    case resting c last =>
      cases hframe
      exact ⟨last, rfl⟩
    all_goals cases hframe
  obtain ⟨last, hpc⟩ := hpc
  simp only [step, hpc, Pc.code, Code.exec, Option.map_some, Option.some.injEq] at h
  exact h.symm

end State

end Pool

def Body.outcome (body : Body ι ρ) : Option Outcome :=
  match body with
  | .unlock _ result | .ret result => some (.result result)
  | _ => none

def Body.holds (body : Body ι ρ) (index : Nat) : Bool :=
  match body with
  | .read other _ | .write other _ _ _ | .unlock other _ => other = index
  | _ => false

namespace AsyncState

def bodyOf (s : AsyncState cfg C ι ρ) (thread : Thread cfg C) : Body ι ρ :=
  match thread with
  | .worker worker => s.body worker
  | .client _ => .route 0

def Running (s : AsyncState cfg C ι ρ) (thread : Thread cfg C) (id : Nat) (outcome : Outcome) : Prop :=
  (∃ f, (s.pool.pc thread).bodyFrame = some f ∧ f.item.id = id ∧ (s.bodyOf thread).outcome = some outcome) ∨
    ∃ item, (s.pool.pc thread).completing = some (item, outcome) ∧ item.id = id

def Done (s : AsyncState cfg C ι ρ) (id : Nat) (outcome : Outcome) : Prop :=
  (∃ item, item.id = id ∧ (item, outcome) ∈ s.pool.memory.history.executed) ∨
    ∃ thread, s.Running thread id outcome

theorem current_eq (s : AsyncState cfg C ι ρ) (worker : Fin cfg.workerCount)
    : s.current worker = (s.pool.pc (.worker worker)).bodyFrame.bind fun f =>
        (s.closure f.item.id).map fun command => (f, command) := by
  unfold current
  generalize s.pool.pc (.worker worker) = pc
  cases pc
  case resting c last => cases c <;> rfl
  all_goals rfl

theorem current_eq_some {s : AsyncState cfg C ι ρ} {worker : Fin cfg.workerCount} {f : Frame}
    {command : Command}
    : s.current worker = some (f, command) ↔
        (s.pool.pc (.worker worker)).bodyFrame = some f ∧ s.closure f.item.id = some command := by
  rw [current_eq]
  cases hframe : (s.pool.pc (.worker worker)).bodyFrame with
  | none => simp
  | some f' =>
    simp only [Option.bind_some, Option.map_eq_some_iff, Prod.mk.injEq, Option.some.injEq]
    constructor
    . rintro ⟨command', hclosure, rfl, rfl⟩
      exact ⟨rfl, hclosure⟩
    . rintro ⟨rfl, hclosure⟩
      exact ⟨command, hclosure, rfl, rfl⟩

theorem closure_eq_none {s : AsyncState cfg C ι ρ} {worker : Fin cfg.workerCount} {f : Frame}
    (hcurrent : s.current worker = none) (hframe : (s.pool.pc (.worker worker)).bodyFrame = some f)
    : s.closure f.item.id = none := by
  cases hclosure : s.closure f.item.id with
  | none => rfl
  | some command =>
    rw [current_eq_some.mpr ⟨hframe, hclosure⟩] at hcurrent
    cases hcurrent

section

variable {s s' : AsyncState cfg C ι ρ} {worker : Fin cfg.workerCount} {f : Frame} {id : Nat}
  {outcome outcome' : Outcome} {body : Body ι ρ}

theorem bodyOf_setBody_of_ne {thread : Thread cfg C} (h : thread ≠ .worker worker)
    : (s.setBody worker body).bodyOf thread = s.bodyOf thread := by
  cases thread with
  | worker other => exact Function.update_of_ne (by simpa using h) _ _
  | client name => rfl

theorem body_setBody : (s.setBody worker body).body worker = body :=
  Function.update_self _ _ _

theorem running_setBody_of_ne {thread : Thread cfg C} (h : thread ≠ .worker worker)
    : (s.setBody worker body).Running thread id outcome ↔ s.Running thread id outcome := by
  unfold Running
  rw [bodyOf_setBody_of_ne h]
  exact Iff.rfl

theorem running_of_bodyFrame (h : (s.pool.pc (.worker worker)).bodyFrame = some f)
    : s.Running (.worker worker) id outcome ↔ f.item.id = id ∧ (s.body worker).outcome = some outcome := by
  constructor
  . rintro (⟨f', hframe, hid, houtcome⟩ | ⟨item, hcompleting, hid⟩)
    . rw [h] at hframe
      cases hframe
      exact ⟨hid, houtcome⟩
    . rw [Pool.Pc.completing_eq_none h] at hcompleting
      cases hcompleting
  . rintro ⟨hid, houtcome⟩
    exact .inl ⟨f, h, hid, houtcome⟩

theorem done_setBody_of_outcome (houtcome : body.outcome = (s.body worker).outcome)
    : (s.setBody worker body).Done id outcome ↔ s.Done id outcome := by
  have hrunning : ∀ thread, (s.setBody worker body).Running thread id outcome ↔ s.Running thread id outcome := by
    intro thread
    by_cases h : thread = .worker worker
    . subst h
      unfold Running
      simp only [bodyOf, body_setBody, houtcome]
      exact Iff.rfl
    . exact running_setBody_of_ne h
  exact or_congr Iff.rfl (exists_congr hrunning)

theorem done_setBody_add (hframe : (s.pool.pc (.worker worker)).bodyFrame = some f)
    (hold : (s.body worker).outcome = none) (hnew : body.outcome = some outcome')
    : (s.setBody worker body).Done id outcome ↔
        s.Done id outcome ∨ f.item.id = id ∧ outcome = outcome' := by
  have hself : (s.setBody worker body).Running (.worker worker) id outcome ↔
      f.item.id = id ∧ outcome = outcome' := by
    rw [running_of_bodyFrame (s := s.setBody worker body) hframe, body_setBody, hnew, Option.some.injEq]
    exact and_congr Iff.rfl eq_comm
  have hnone : ¬ s.Running (.worker worker) id outcome := by
    rw [running_of_bodyFrame hframe, hold]
    nofun
  constructor
  . rintro (hexecuted | ⟨thread, hrunning⟩)
    . exact .inl (.inl hexecuted)
    . by_cases h : thread = .worker worker
      . subst h
        exact .inr (hself.mp hrunning)
      . exact .inl (.inr ⟨thread, (running_setBody_of_ne h).mp hrunning⟩)
  . rintro ((hexecuted | ⟨thread, hrunning⟩) | hadded)
    . exact .inl hexecuted
    . refine .inr ⟨thread, ?_⟩
      by_cases h : thread = .worker worker
      . subst h
        exact absurd hrunning hnone
      . exact (running_setBody_of_ne h).mpr hrunning
    . exact .inr ⟨.worker worker, hself.mpr hadded⟩

end

variable [Fintype C] [DecidableEq C]

section

variable {s : AsyncState cfg C ι ρ} {id : Nat} {outcome : Outcome}

omit [Fintype C] [DecidableEq C] in
theorem hands_of_running {thread : Thread cfg C} (h : s.Running thread id outcome)
    : ∃ item, item ∈ (s.pool.pc thread).hands ∧ item.id = id := by
  rcases h with ⟨f, hframe, hid, -⟩ | ⟨item, hcompleting, hid⟩
  . exact ⟨f.item, Pool.Pc.hands_of_bodyFrame hframe, hid⟩
  . exact ⟨item, Pool.Pc.hands_of_completing hcompleting, hid⟩

theorem at_of_done (hpool : (Pool.system cfg C).Reachable s.pool) (h : s.Done id outcome)
    : ∃ item place, item.id = id ∧ s.pool.At item place ∧
        (place = .executed ∨ ∃ worker, place = .claimed worker ∧ s.Running (.worker worker) id outcome) := by
  rcases h with ⟨item, hid, hexecuted⟩ | ⟨thread, hrunning⟩
  . exact ⟨item, .executed, hid, List.mem_map.mpr ⟨_, hexecuted, rfl⟩, .inl rfl⟩
  . obtain ⟨item, hhands, hid⟩ := hands_of_running hrunning
    obtain ⟨worker, rfl, hclaimed⟩ := Pool.State.claimed_of_hands hpool hhands
    exact ⟨item, .claimed worker, hid, hclaimed, .inr ⟨worker, rfl, hrunning⟩⟩

theorem lt_nextId_of_done (hpool : (Pool.system cfg C).Reachable s.pool) (h : s.Done id outcome)
    : id < s.pool.memory.history.nextId := by
  obtain ⟨item, place, rfl, hat, -⟩ := at_of_done hpool h
  exact Pool.State.lt_nextId_of_accepted hpool (Pool.State.mem_accepted hpool hat)

theorem not_done_of_bodyFrame (hpool : (Pool.system cfg C).Reachable s.pool) {worker : Fin cfg.workerCount}
    {f : Frame} (hframe : (s.pool.pc (.worker worker)).bodyFrame = some f)
    (hnone : (s.body worker).outcome = none)
    : ¬ s.Done f.item.id outcome := by
  intro h
  obtain ⟨item, place, hid, hat, hplace⟩ := at_of_done hpool h
  have hclaimed : s.pool.At f.item (.claimed worker) := Pool.Pc.hands_of_bodyFrame hframe
  have heq := Pool.State.eq_of_id_eq hpool (Pool.State.mem_accepted hpool hat)
    (Pool.State.mem_accepted hpool hclaimed) hid
  subst heq
  have hsame := Pool.State.at_unique hpool hat hclaimed
  rcases hplace with rfl | ⟨other, rfl, hrunning⟩
  . cases hsame
  . cases hsame
    rw [running_of_bodyFrame hframe, hnone] at hrunning
    cases hrunning.2

end

section

variable {s s' : AsyncState cfg C ι ρ} {id : Nat} {outcome : Outcome} {event : Pool.Event cfg C}
  {p : Pool.State cfg C} (hidle : ∀ worker, s.current worker = none → s.body worker = .route 0)
  (hfree : ∀ t choice, event = .step t choice → s.occupied t = false)
  (hpool : s.pool.step event = some p) (hp : s'.pool = p) (hbody : s'.body = s.body)
include hidle

omit [Fintype C] [DecidableEq C] in
theorem outcome_eq_none_of_free {t : Thread cfg C} (h : s.occupied t = false)
    : (s.bodyOf t).outcome = none := by
  cases t with
  | worker worker =>
    have hnone : s.current worker = none := by simpa [occupied] using h
    simp [bodyOf, hidle worker hnone, Body.outcome]
  | client name => rfl

include hfree hpool hp hbody

theorem done_pool_step (h : s.Done id outcome) : s'.Done id outcome := by
  have hbodyOf : ∀ t, s'.bodyOf t = s.bodyOf t := by
    rintro (worker | name)
    . exact congrFun hbody worker
    . rfl
  cases Pool.State.step_cases hpool with
  | spurious => simpa [Done, Running, hp, hbodyOf, Pool.Memory.setStateSleeper, Pool.Memory.setEpochSleeper] using h
  | @thread t choice op pc' m' hedge heffect =>
    have hnone := outcome_eq_none_of_free hidle (hfree t choice rfl)
    rcases h with ⟨item, hid, hexecuted⟩ | ⟨u, hrunning⟩
    . refine .inl ⟨item, hid, ?_⟩
      rw [hp]
      by_cases hcomplete : ∃ item' outcome', op = .complete item' outcome'
      . obtain ⟨item', outcome', rfl⟩ := hcomplete
        simp only [heffect.executed_of_complete]
        exact List.mem_append_left _ hexecuted
      . simp only [not_exists] at hcomplete
        simp only [heffect.executed_eq hcomplete]
        exact hexecuted
    . by_cases hut : u = t
      . subst hut
        rcases hrunning with ⟨f, -, -, houtcome⟩ | ⟨item, hcompleting, hid⟩
        . rw [hnone] at houtcome
          cases houtcome
        . cases hedge.completed hcompleting with
          | inl hsame =>
            refine .inr ⟨u, .inr ⟨item, ?_, hid⟩⟩
            rw [hp, Pool.State.pc_self, hsame]
            exact hcompleting
          | inr hop =>
            subst hop
            refine .inl ⟨item, hid, ?_⟩
            rw [hp]
            simp only [heffect.executed_of_complete]
            exact List.mem_append_right _ (List.mem_singleton.mpr rfl)
      . refine .inr ⟨u, ?_⟩
        simpa only [Running, hp, hbodyOf, Pool.State.pc_of_ne hut] using hrunning

theorem done_before_pool_step (hs : (Pool.system cfg C).Reachable s.pool) (h : s'.Done id outcome)
    : s.Done id outcome ∨ s.closure id = none ∧ id < s.pool.memory.history.nextId := by
  have hbodyOf : ∀ t, s'.bodyOf t = s.bodyOf t := by
    rintro (worker | name)
    . exact congrFun hbody worker
    . rfl
  cases Pool.State.step_cases hpool with
  | spurious =>
    left
    simpa [Done, Running, hp, hbodyOf, Pool.Memory.setStateSleeper, Pool.Memory.setEpochSleeper] using h
  | @thread t choice op pc' m' hedge heffect =>
    have hoccupied := hfree t choice rfl
    have hnone := outcome_eq_none_of_free hidle hoccupied
    rcases h with ⟨item, hid, hexecuted⟩ | ⟨u, hrunning⟩
    . left
      rw [hp] at hexecuted
      by_cases hcomplete : ∃ item' outcome', op = .complete item' outcome'
      . obtain ⟨item', outcome', rfl⟩ := hcomplete
        simp only [heffect.executed_of_complete, List.mem_append, List.mem_singleton,
          Prod.mk.injEq] at hexecuted
        rcases hexecuted with hbefore | ⟨rfl, rfl⟩
        . exact .inl ⟨item, hid, hbefore⟩
        . exact .inr ⟨t, .inr ⟨item, hedge.completing_of_complete, hid⟩⟩
      . simp only [not_exists] at hcomplete
        simp only [heffect.executed_eq hcomplete] at hexecuted
        exact .inl ⟨item, hid, hexecuted⟩
    . by_cases hut : u = t
      . subst hut
        rcases hrunning with ⟨f, -, -, houtcome⟩ | ⟨item, hcompleting, hid⟩
        . rw [hbodyOf, hnone] at houtcome
          cases houtcome
        . rw [hp, Pool.State.pc_self] at hcompleting
          rcases hedge.completing hcompleting with hsame | ⟨f, hframe, rfl⟩
          . rw [hsame] at hcompleting
            exact .inl (.inr ⟨u, .inr ⟨item, hcompleting, hid⟩⟩)
          . right
            have hhands := Pool.Pc.hands_of_bodyFrame hframe
            obtain ⟨worker, rfl, -⟩ := Pool.State.claimed_of_hands hs hhands
            rw [← hid]
            refine ⟨closure_eq_none ?_ hframe, Pool.State.lt_nextId_of_hands hs hhands⟩
            simpa [occupied] using hoccupied
      . refine .inl (.inr ⟨u, ?_⟩)
        simpa only [Running, hp, hbodyOf, Pool.State.pc_of_ne hut] using hrunning

end

variable [DecidableEq ι] [IRegister ρ]

inductive Step (handler : Handler ι) (s : AsyncState cfg C ι ρ)
    : AsyncEvent cfg C → AsyncState cfg C ι ρ → Prop where
  | invoke (hfree : s.occupied t = false) (hpool : s.pool.step (.step t (.call .submit)) = some p)
    : Step handler s (.invoke t command)
        { s with
          pool := p
          closure := Function.update s.closure s.pool.memory.history.nextId (some command) }
  | pool (hfree : ∀ t choice, event = .step t choice → s.occupied t = false)
      (hpool : s.pool.step event = some p)
    : Step handler s (.pool event) { s with pool := p }
  | missing (hcurrent : s.current worker = some (f, command)) (hbody : s.body worker = .route index)
      (hnone : handler.registers[index]? = none)
    : Step handler s (.task worker)
        ((s.apply f command (.error (missingRegister command.category))).setBody worker
          (.ret (.error (missingRegister command.category))))
  | skip (hcurrent : s.current worker = some (f, command)) (hbody : s.body worker = .route index)
      (hi : handler.registers[index]? = some i) (hne : IRegister.category (s.store i) ≠ command.category)
    : Step handler s (.task worker) (s.setBody worker (.route (index + 1)))
  | route (hcurrent : s.current worker = some (f, command)) (hbody : s.body worker = .route index)
      (hi : handler.registers[index]? = some i) (heq : IRegister.category (s.store i) = command.category)
    : Step handler s (.task worker) (s.setBody worker (.lock index i))
  | lock (hcurrent : s.current worker = some (f, command)) (hbody : s.body worker = .lock index i)
      (hfree : s.mutexes index = none)
    : Step handler s (.task worker) ((s.setMutex index (some worker)).setBody worker (.read index i))
  | read (hcurrent : s.current worker = some (f, command)) (hbody : s.body worker = .read index i)
    : Step handler s (.task worker)
        (s.setBody worker (.write index i (IRegister.invoke (s.store i) command).1
          (IRegister.invoke (s.store i) command).2))
  | write (hcurrent : s.current worker = some (f, command)) (hbody : s.body worker = .write index i result r)
    : Step handler s (.task worker)
        (({ s with store := Function.update s.store i r }.apply f command result).setBody worker
          (.unlock index result))
  | unlock (hcurrent : s.current worker = some (f, command)) (hbody : s.body worker = .unlock index result)
    : Step handler s (.task worker) ((s.setMutex index none).setBody worker (.ret result))
  | ret (hcurrent : s.current worker = some (f, command)) (hbody : s.body worker = .ret result)
      (hpool : s.pool.step (.step (.worker worker) (.ret (.result result))) = some p)
    : Step handler s (.task worker) ({ s with pool := p }.setBody worker (.route 0))

theorem step_cases {handler : Handler ι} {s s' : AsyncState cfg C ι ρ} {event : AsyncEvent cfg C}
    (h : s.step handler event = some s')
    : s.Step handler event s' := by
  cases event with
  | invoke t command =>
    rw [step] at h
    split at h
    . cases h
    . next hfree =>
      simp only [stepPool, Option.map_map, Option.map_eq_some_iff] at h
      obtain ⟨pool, hpool, rfl⟩ := h
      exact .invoke (by simpa using hfree) hpool
  | pool event =>
    cases event with
    | step t choice =>
      simp only [step] at h
      split at h
      . cases h
      . next hfree =>
        simp only [stepPool, Option.map_eq_some_iff] at h
        obtain ⟨pool, hpool, rfl⟩ := h
        refine .pool ?_ hpool
        intro t' choice' heq
        cases heq
        simpa using hfree
    | spurious t =>
      simp only [step, stepPool, Option.map_eq_some_iff] at h
      obtain ⟨pool, hpool, rfl⟩ := h
      exact .pool nofun hpool
  | task worker =>
    simp only [step] at h
    split at h
    . cases h
    . next f command hcurrent =>
      unfold stepTask at h
      split at h
      . next index hbody =>
        split at h
        . next hnone =>
          cases h
          exact .missing hcurrent hbody hnone
        . next i hi =>
          split at h
          . next hne =>
            cases h
            exact .skip hcurrent hbody hi hne
          . next heq =>
            cases h
            exact .route hcurrent hbody hi (Decidable.not_not.mp heq)
      . next index i hbody =>
        split at h
        . next hfree =>
          cases h
          exact .lock hcurrent hbody hfree
        . cases h
      . next index i hbody =>
        cases h
        exact .read hcurrent hbody
      . next hbody =>
        cases h
        exact .write hcurrent hbody
      . next hbody =>
        cases h
        exact .unlock hcurrent hbody
      . next hbody =>
        simp only [stepPool, Option.map_map, Option.map_eq_some_iff] at h
        obtain ⟨pool, hpool, rfl⟩ := h
        exact .ret hcurrent hbody hpool

end AsyncState

end Vosp
