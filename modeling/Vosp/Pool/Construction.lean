import Vosp.Lib.Termination
import Vosp.Pool.Program

/-!
This module contains the constructor of the pool, which starts the workers one after the other while those that it
has started already run. When a thread cannot be created, the constructor stops the workers, joins them and throws
again.

`started` is the length of `workers_`; the memory of the pool has the list of all workers from the beginning, which
no worker reads. The clients of the pool cannot use it before it is constructed.
-/

namespace Vosp.Pool

inductive CtorPc (cfg : Config) where
  | start
  | stop
  | notify
  -- `workers_.clear()`: the destructor of a `std::jthread` requests a stop and joins
  | clear (rest : List (Fin cfg.workerCount))
  | join (index : Fin cfg.workerCount) (rest : List (Fin cfg.workerCount))
  | rethrown
  | constructed
  deriving DecidableEq

inductive CtorEvent (cfg : Config) (C : Type) where
  -- `emplace_back` returns, or throws.
  | create
  | fail
  | go
  | run (worker : Fin cfg.workerCount) (choice : Choice cfg C)
  | spurious (worker : Fin cfg.workerCount)

structure Construction (cfg : Config) (C : Type) where
  pool : State cfg C
  started : Nat
  pc : CtorPc cfg

namespace Construction

variable {cfg : Config} {C : Type} [Fintype C] [DecidableEq C]

def init : Construction cfg C where
  pool := .init
  started := 0
  pc := .start

def workers (s : Construction cfg C) : List (Fin cfg.workerCount) := (List.finRange cfg.workerCount).take s.started

def setMemory (s : Construction cfg C) (memory : Memory cfg C) (pc : CtorPc cfg) : Construction cfg C :=
  { s with pool := { s.pool with memory := memory }, pc := pc }

def go (s : Construction cfg C) : Option (Construction cfg C) :=
  let memory := s.pool.memory
  match s.pc with
  | .stop => some (s.setMemory { memory with queueState := stopState memory.queueState } .notify)
  | .notify => some (s.setMemory { memory with stateSleeper := fun _ => false } (.clear s.workers))
  | .clear (index :: rest) =>
    let stopRequested := Function.update memory.stopRequested index true
    some (s.setMemory { memory with stopRequested := stopRequested } (.join index rest))
  | .clear [] => some { s with pc := .rethrown }
  | .join index rest => if memory.exited (.worker index) then some { s with pc := .clear rest } else none
  | .start | .rethrown | .constructed => none

def step (s : Construction cfg C) (event : CtorEvent cfg C) : Option (Construction cfg C) :=
  match event with
  | .create =>
    match s.pc with
    | .start =>
      let started := s.started + 1
      some { s with started := started, pc := if started < cfg.workerCount then .start else .constructed }
    | _ => none
  | .fail =>
    match s.pc with
    | .start => some { s with pc := .stop }
    | _ => none
  | .go => s.go
  | .run worker choice =>
    if worker < s.started then
      (s.pool.step (.step (.worker worker) choice)).map fun pool => { s with pool := pool }
    else
      none
  | .spurious worker => (s.pool.step (.spurious (.worker worker))).map fun pool => { s with pool := pool }

end Construction

def construction (cfg : Config) (C : Type) [Fintype C] [DecidableEq C]
    : System (Construction cfg C) (CtorEvent cfg C) where
  init := .init
  step := Construction.step

def CtorEvent.advances {cfg : Config} {C : Type} (event : CtorEvent cfg C) : Bool :=
  match event with
  | .spurious _ => false
  | _ => true

def CtorPc.stopping {cfg : Config} (pc : CtorPc cfg) : Bool :=
  match pc with
  | .notify | .clear _ | .join _ _ | .rethrown => true
  | .start | .stop | .constructed => false

def emptyState (cfg : Config) (stopping : Bool) : Word cfg :=
  if stopping then stopState (BitVec.ofNat cfg.digits 0) else BitVec.ofNat cfg.digits 0

section

variable {cfg : Config} {stopping : Bool}

theorem counts_emptyState : Counts (emptyState cfg stopping) 0 0 stopping := by
  unfold emptyState
  cases stopping with
  | false => exact Counts.zero
  | true => exact Counts.zero.stop

theorem isEmpty_emptyState : isEmpty (emptyState cfg stopping) = !stopping := by
  rw [isEmpty, counts_emptyState.pending_eq, counts_emptyState.stopping_eq]
  rfl

theorem emptyState_ne : emptyState cfg true ≠ emptyState cfg false := by
  intro heq
  have hstop : isEmpty (emptyState cfg true) = false := isEmpty_emptyState
  rw [heq, isEmpty_emptyState] at hstop
  cases hstop

end

inductive Pc.Starting {cfg : Config} : Bool → Pc cfg → Prop where
  | stateLoad (stopping : Bool) : Starting stopping .stateLoad
  | workerEnlist (stopping : Bool) : Starting stopping .workerEnlist
  | workerObserve (stopping : Bool) : Starting stopping .workerObserve
  | workerWait (stopping : Bool) : Starting stopping (.workerWait (emptyState cfg false))
  | workerDelist : Starting true .workerDelist
  | workerExit : Starting true .workerExit
  | exited : Starting true .exited

def Pc.startRank {cfg : Config} (stopping asleep : Bool) (pc : Pc cfg) : Nat :=
  match stopping, pc with
  | false, .stateLoad => 4
  | false, .workerEnlist => 3
  | false, .workerObserve => 2
  | false, .workerWait _ => if asleep then 0 else 1
  | true, .workerEnlist => 5
  | true, .workerObserve | true, .workerWait _ => 4
  | true, .workerDelist => 3
  | true, .stateLoad => 2
  | true, .workerExit => 1
  | _, _ => 0

theorem Pc.startRank_workerWait_lt {cfg : Config} {observed : Word cfg} {asleep : Bool}
    : (Pc.workerWait observed).startRank false asleep < 2 := by
  cases asleep with
  | false => exact Nat.one_lt_two
  | true => exact Nat.zero_lt_two

structure StartStep {cfg : Config} {C : Type} (stopping : Bool) (t : Thread cfg C) (m m' : Memory cfg C)
    (pc pc' : Pc cfg) : Prop where
  starting : pc'.Starting stopping
  queueState : m'.queueState = m.queueState
  owner : m'.owner = m.owner
  exited : ∀ u, m'.exited u = true ↔ m.exited u = true ∨ u = t ∧ pc' = .exited
  sleeper : ∀ u, m'.stateSleeper u = true → m.stateSleeper u = true ∨ u = t ∧ stopping = false
  rank : pc'.startRank stopping (m'.stateSleeper t) < pc.startRank stopping (m.stateSleeper t)
  other : ∀ u, u ≠ t → m'.stateSleeper u = m.stateSleeper u

section

variable {cfg : Config} {C : Type} {stopping : Bool} {t : Thread cfg C} {m m' : Memory cfg C} {pc pc' : Pc cfg}

theorem StartStep.frame (hstarting : pc'.Starting stopping) (hrunning : pc' ≠ .exited)
    (hstate : m'.queueState = m.queueState) (howner : m'.owner = m.owner) (hexited : m'.exited = m.exited)
    (hsleeper : m'.stateSleeper = m.stateSleeper)
    (hrank : pc'.startRank stopping (m.stateSleeper t) < pc.startRank stopping (m.stateSleeper t))
    : StartStep stopping t m m' pc pc' where
  starting := hstarting
  queueState := hstate
  owner := howner
  exited u := by
    rw [hexited, or_iff_left]
    exact fun h => hrunning h.2
  sleeper u h := by
    rw [hsleeper] at h
    exact .inl h
  rank := by rwa [hsleeper]
  other u _ := by rw [hsleeper]

variable [Fintype C] [DecidableEq C] {choice : Choice cfg C}

omit [Fintype C] in
theorem StartStep.sleep (hawake : m.stateSleeper t = false)
    : StartStep false t m (m.setStateSleeper t true) (.workerWait (emptyState cfg false))
        (.workerWait (emptyState cfg false)) where
  starting := .workerWait _
  queueState := rfl
  owner := rfl
  exited _ := (or_iff_left (fun hexit => by cases hexit.2)).symm
  sleeper u hu := by
    by_cases hut : u = t
    . exact .inr ⟨hut, rfl⟩
    . simp only [Memory.setStateSleeper, Function.update_of_ne hut] at hu
      exact .inl hu
  rank := by simp [Pc.startRank, Memory.setStateSleeper, hawake]
  other _ hut := Function.update_of_ne hut _ _

omit [Fintype C] in
theorem StartStep.exit
    : StartStep true t m { m with exited := Function.update m.exited t true } .workerExit .exited where
  starting := .exited
  queueState := rfl
  owner := rfl
  exited u := by
    by_cases hut : u = t
    . simp [hut]
    . simp [hut]
  sleeper _ hu := .inl hu
  rank := by simp [Pc.startRank]
  other _ _ := rfl

theorem Pc.Starting.step (h : pc.Starting stopping) (hword : m.queueState = emptyState cfg stopping)
    (hstep : (pc.code : Code cfg C (Pc cfg)).exec t m choice = some (m', pc'))
    : StartStep stopping t m m' pc pc' := by
  have hempty : isEmpty (emptyState cfg stopping) = !stopping := isEmpty_emptyState
  have hcounts : Counts (emptyState cfg stopping) 0 0 stopping := counts_emptyState
  have hpending := hcounts.pending_eq
  have hstopping := hcounts.stopping_eq
  cases choice with
  | go =>
    cases h with
    | stateLoad =>
      simp only [code, Code.exec, hword, hempty, hpending, hstopping] at hstep
      cases stopping with
      | false =>
        cases hstep
        exact .frame (.workerEnlist _) (fun h => by cases h) rfl rfl rfl rfl (by simp [startRank])
      | true =>
        cases hstep
        exact .frame .workerExit (fun h => by cases h) rfl rfl rfl rfl (by simp [startRank])
    | workerEnlist =>
      simp only [code, Code.exec] at hstep
      cases hstep
      exact .frame (.workerObserve _) (fun h => by cases h) rfl rfl rfl rfl (by cases stopping <;> simp [startRank])
    | workerObserve =>
      simp only [code, Code.exec, hword, hempty] at hstep
      cases stopping with
      | false =>
        cases hstep
        exact .frame (.workerWait _) (fun h => by cases h) rfl rfl rfl rfl startRank_workerWait_lt
      | true =>
        cases hstep
        exact .frame .workerDelist (fun h => by cases h) rfl rfl rfl rfl (by simp [startRank])
    | workerWait =>
      simp only [code, Code.exec] at hstep
      split at hstep
      . cases hstep
      . next hawake =>
        split at hstep
        . next hsame =>
          cases hstep
          have hnot : stopping = false := by
            cases stopping with
            | false => rfl
            | true => exact absurd (hword.symm.trans hsame) emptyState_ne
          subst hnot
          exact .sleep (by simpa using hawake)
        . next hother =>
          cases hstep
          cases stopping with
          | false => exact absurd hword hother
          | true => exact .frame .workerDelist (fun h => by cases h) rfl rfl rfl rfl (by simp [startRank])
    | workerDelist =>
      simp only [code, Code.exec] at hstep
      cases hstep
      exact .frame (.stateLoad _) (fun h => by cases h) rfl rfl rfl rfl (by simp [startRank])
    | workerExit =>
      simp only [code, Code.exec] at hstep
      cases hstep
      exact .exit
    | exited => cases hstep
  | call | ret | unblock => cases h <;> cases hstep

theorem Pc.Starting.stop (h : pc.Starting stopping) : pc.Starting true := by
  cases h <;> constructor

theorem Pc.Starting.can_step (h : pc.Starting true) (hrunning : pc ≠ .exited) (hawake : m.stateSleeper t = false)
    (hword : m.queueState = emptyState cfg true)
    : ((pc.code : Code cfg C (Pc cfg)).exec t m .go).isSome = true := by
  cases h with
  | workerWait => simp [code, Code.exec, hawake, hword, emptyState_ne]
  | exited => exact absurd rfl hrunning
  | _ => rfl

end

def CtorPc.rest {cfg : Config} (pc : CtorPc cfg) : Option (List (Fin cfg.workerCount)) :=
  match pc with
  | .clear rest => some rest
  | .join index rest => some (index :: rest)
  | .rethrown => some []
  | _ => none

namespace Construction

variable {cfg : Config} {C : Type} [Fintype C] [DecidableEq C] {s s' : Construction cfg C} {event : CtorEvent cfg C}

structure Valid (s : Construction cfg C) : Prop where
  start : s.pc = .start → s.started < cfg.workerCount
  started : s.pc = .constructed → s.started = cfg.workerCount
  queueState : s.pool.memory.queueState = emptyState cfg s.pc.stopping
  owner : ∀ mutex, s.pool.memory.owner mutex = none
  starting : ∀ worker, (s.pool.pc (.worker worker)).Starting s.pc.stopping
  exited : ∀ worker, s.pool.memory.exited (.worker worker) = true ↔ s.pool.pc (.worker worker) = .exited
  awake : s.pc.rest.isSome = true → ∀ thread, s.pool.memory.stateSleeper thread = false
  joined : ∀ rest, s.pc.rest = some rest →
    ∃ done, s.workers = done ++ rest ∧ ∀ worker ∈ done, s.pool.pc (.worker worker) = .exited
  pool : s.pc.stopping = false → (system cfg C).Reachable s.pool

omit [Fintype C] [DecidableEq C] in
theorem stopping_of_rest (h : s.pc.rest.isSome = true) : s.pc.stopping = true := by
  cases hpc : s.pc with
  | clear | join | rethrown => rfl
  | start | stop | notify | constructed =>
    rw [hpc] at h
    cases h

theorem Valid.init : (init : Construction cfg C).Valid where
  start _ := cfg.workerCount_pos
  started h := by cases h
  queueState := rfl
  owner _ := rfl
  starting _ := .stateLoad _
  exited _ := iff_of_false Bool.false_ne_true (fun h => by cases h)
  awake h := by cases h
  joined _ h := by cases h
  pool _ := .init

theorem Valid.run (h : s.Valid) {worker : Fin cfg.workerCount} {choice : Choice cfg C} {pool : State cfg C}
    (hstep : s.pool.step (.step (.worker worker) choice) = some pool)
    : Valid { s with pool := pool } := by
  have hpool : (system cfg C).step s.pool (.step (.worker worker) choice) = some pool := hstep
  obtain ⟨⟨m, pc⟩, hexec, rfl⟩ := Option.map_eq_some_iff.mp hstep
  have hedge := (h.starting worker).step h.queueState hexec
  have hrunning : s.pool.pc (.worker worker) ≠ .exited := by
    intro hexited
    rw [hexited] at hexec
    cases hexec
  constructor
  case start => exact h.start
  case started => exact h.started
  case queueState => exact hedge.queueState.trans h.queueState
  case owner =>
    intro mutex
    rw [hedge.owner]
    exact h.owner mutex
  case starting =>
    intro other
    by_cases hother : other = worker
    . subst hother
      simp only [Function.update_self]
      exact hedge.starting
    . simp only [Function.update_of_ne (fun heq => hother (Thread.worker.inj heq))]
      exact h.starting other
  case exited =>
    intro other
    rw [hedge.exited]
    by_cases hother : other = worker
    . subst hother
      simp only [Function.update_self, true_and]
      rw [h.exited]
      exact ⟨fun hor => hor.resolve_left hrunning, .inr⟩
    . simp only [Function.update_of_ne (fun heq => hother (Thread.worker.inj heq))]
      rw [or_iff_left (fun hboth => hother (Thread.worker.inj hboth.1))]
      exact h.exited other
  case awake =>
    intro hrest thread
    by_contra hasleep
    rw [Bool.not_eq_false] at hasleep
    rcases hedge.sleeper thread hasleep with hold | ⟨-, hstopping⟩
    . rw [h.awake hrest thread] at hold
      cases hold
    . rw [stopping_of_rest hrest] at hstopping
      cases hstopping
  case joined =>
    intro rest hrest
    obtain ⟨done, hdone, hexited⟩ := h.joined rest hrest
    refine ⟨done, hdone, ?_⟩
    intro other hmem
    have hne : Thread.worker other ≠ (.worker worker : Thread cfg C) := by
      intro heq
      rw [← heq] at hrunning
      exact hrunning (hexited other hmem)
    simp only [Function.update_of_ne hne]
    exact hexited other hmem
  case pool => exact fun hstopping => (h.pool hstopping).next hpool

theorem Valid.spurious (h : s.Valid) {worker : Fin cfg.workerCount} {pool : State cfg C}
    (hstep : s.pool.step (.spurious (.worker worker)) = some pool)
    : Valid { s with pool := pool } := by
  have hpool : (system cfg C).step s.pool (.spurious (.worker worker)) = some pool := hstep
  cases hstep
  constructor
  case awake =>
    intro hrest thread
    simp only [Memory.setEpochSleeper, Memory.setStateSleeper, Function.update_apply]
    split
    . rfl
    . exact h.awake hrest thread
  case pool => exact fun hstopping => (h.pool hstopping).next hpool
  case start => exact h.start
  case started => exact h.started
  case queueState => exact h.queueState
  case owner => exact h.owner
  case starting => exact h.starting
  case exited => exact h.exited
  case joined => exact h.joined

theorem Valid.create (h : s.Valid) (hpc : s.pc = .start) (pc : CtorPc cfg)
    (hnext : pc = if s.started + 1 < cfg.workerCount then .start else .constructed)
    : Valid { s with started := s.started + 1, pc := pc } := by
  have hcount := h.start hpc
  have hstopping : pc.stopping = s.pc.stopping := by
    rw [hnext, hpc]
    split <;> rfl
  have hrest : pc.rest = none := by
    rw [hnext]
    split <;> rfl
  constructor
  case start =>
    intro hstart
    simp only at hstart
    rw [hnext] at hstart
    split at hstart
    . assumption
    . cases hstart
  case started =>
    intro hconstructed
    simp only at hconstructed
    rw [hnext] at hconstructed
    split at hconstructed
    . cases hconstructed
    . show s.started + 1 = cfg.workerCount
      omega
  case queueState =>
    simp only [hstopping]
    exact h.queueState
  case owner => exact h.owner
  case starting =>
    simp only [hstopping]
    exact h.starting
  case exited => exact h.exited
  case awake =>
    simp only [hrest]
    intro hnone
    cases hnone
  case joined =>
    simp only [hrest]
    intro rest hnone
    cases hnone
  case pool =>
    simp only [hstopping]
    exact h.pool

theorem Valid.move (h : s.Valid) {memory : Memory cfg C} {pc : CtorPc cfg} (hstopping : pc.stopping = true)
    (howner : memory.owner = s.pool.memory.owner) (hexited : memory.exited = s.pool.memory.exited)
    (hword : memory.queueState = emptyState cfg true)
    (hawake : pc.rest.isSome = true → ∀ thread, memory.stateSleeper thread = false)
    (hjoined : ∀ rest, pc.rest = some rest →
      ∃ done, s.workers = done ++ rest ∧ ∀ worker ∈ done, s.pool.pc (.worker worker) = .exited)
    : (s.setMemory memory pc).Valid where
  start hpc := by
    simp only [setMemory] at hpc
    rw [hpc] at hstopping
    cases hstopping
  started hpc := by
    simp only [setMemory] at hpc
    rw [hpc] at hstopping
    cases hstopping
  queueState := by
    simp only [setMemory, hstopping]
    exact hword
  owner mutex := by
    simp only [setMemory, howner]
    exact h.owner mutex
  starting worker := by
    simp only [setMemory, hstopping]
    exact (h.starting worker).stop
  exited worker := by
    simp only [setMemory, hexited]
    exact h.exited worker
  awake := hawake
  joined := hjoined
  pool hrunning := by
    simp only [setMemory, hstopping] at hrunning
    cases hrunning

theorem Valid.go (h : s.Valid) (hstep : s.go = some s') : s'.Valid := by
  have hword := h.queueState
  have hawake := h.awake
  have hjoined := h.joined
  unfold Construction.go at hstep
  split at hstep
  . next hpc =>
    cases hstep
    rw [hpc] at hword
    exact h.move rfl rfl rfl (congrArg stopState hword) (fun hnone => by cases hnone) (fun _ hnone => by cases hnone)
  . next hpc =>
    cases hstep
    rw [hpc] at hword
    refine h.move rfl rfl rfl hword (fun _ _ => rfl) ?_
    intro rest hrest
    cases hrest
    exact ⟨[], rfl, fun _ hmem => absurd hmem List.not_mem_nil⟩
  . next index rest hpc =>
    cases hstep
    rw [hpc] at hword hawake hjoined
    exact h.move rfl rfl rfl hword hawake hjoined
  . next hpc =>
    cases hstep
    rw [hpc] at hword hawake hjoined
    exact h.move rfl rfl rfl hword hawake hjoined
  . next index rest hpc =>
    simp only at hstep
    split at hstep
    . next hexited =>
      cases hstep
      rw [hpc] at hword hawake hjoined
      refine h.move rfl rfl rfl hword hawake ?_
      intro rest' hrest
      cases hrest
      obtain ⟨done, hdone, hall⟩ := hjoined _ rfl
      refine ⟨done ++ [index], by rw [hdone, List.append_assoc, List.singleton_append], ?_⟩
      intro worker hmem
      rcases List.mem_append.mp hmem with hold | hnew
      . exact hall worker hold
      . rw [List.mem_singleton.mp hnew]
        exact (h.exited index).mp hexited
    . cases hstep
  . cases hstep
  . cases hstep
  . cases hstep

theorem Valid.step (h : s.Valid) (hstep : s.step event = some s') : s'.Valid := by
  cases event with
  | create =>
    simp only [Construction.step] at hstep
    split at hstep
    . next hpc =>
      cases hstep
      exact h.create hpc _ rfl
    . cases hstep
  | fail =>
    simp only [Construction.step] at hstep
    split at hstep
    . next hpc =>
      cases hstep
      have hword := h.queueState
      have hstarting := h.starting
      have hpool := h.pool
      rw [hpc] at hword hstarting hpool
      constructor
      case start | started => exact fun hstop => by cases hstop
      case awake => exact fun hnone => by cases hnone
      case joined => exact fun _ hnone => by cases hnone
      case queueState => exact hword
      case owner => exact h.owner
      case starting => exact hstarting
      case exited => exact h.exited
      case pool => exact hpool
    . cases hstep
  | go => exact h.go hstep
  | run worker choice =>
    simp only [Construction.step] at hstep
    split at hstep
    . obtain ⟨pool, hpool, rfl⟩ := Option.map_eq_some_iff.mp hstep
      exact h.run hpool
    . cases hstep
  | spurious worker =>
    simp only [Construction.step] at hstep
    obtain ⟨pool, hpool, rfl⟩ := Option.map_eq_some_iff.mp hstep
    exact h.spurious hpool

theorem valid (hs : (construction cfg C).Reachable s) : s.Valid := by
  apply hs.invariant .init
  intro s event s' _ h _ hstep
  exact h.step hstep

def ctorRank (s : Construction cfg C) : Nat :=
  match s.pc with
  | .start => cfg.workerCount - s.started + 2 * cfg.workerCount + 4
  | .stop => 2 * cfg.workerCount + 3
  | .notify => 2 * cfg.workerCount + 2
  | .join _ rest => 2 * rest.length + 2
  | .clear rest => 2 * rest.length + 1
  | .rethrown | .constructed => 0

def rank (s : Construction cfg C) (worker : Fin cfg.workerCount) : Nat ×ₗ Nat :=
  toLex (s.ctorRank, (s.pool.pc (.worker worker)).startRank s.pc.stopping (s.pool.memory.stateSleeper (.worker worker)))

omit [Fintype C] [DecidableEq C] in
theorem length_workers (s : Construction cfg C) : s.workers.length ≤ cfg.workerCount := by
  rw [workers, List.length_take, List.length_finRange]
  exact Nat.min_le_right _ _

omit [Fintype C] [DecidableEq C] in
theorem ctorRank_go (hstep : s.go = some s') : s'.ctorRank < s.ctorRank := by
  have hlength := s.length_workers
  unfold go at hstep
  split at hstep
  . next hpc =>
    cases hstep
    simp only [ctorRank, setMemory, hpc]
    omega
  . next hpc =>
    cases hstep
    simp only [ctorRank, setMemory, hpc]
    omega
  . next hpc =>
    cases hstep
    simp only [ctorRank, setMemory, hpc, List.length_cons]
    omega
  . next hpc =>
    cases hstep
    simp only [ctorRank, hpc]
    omega
  . next hpc =>
    simp only at hstep
    split at hstep
    . cases hstep
      simp only [ctorRank, hpc]
      omega
    . cases hstep
  . cases hstep
  . cases hstep
  . cases hstep

omit [Fintype C] [DecidableEq C] in
theorem rank_lt_of_ctorRank (h : s'.ctorRank < s.ctorRank) (worker : Fin cfg.workerCount)
    : s'.rank worker < s.rank worker :=
  Prod.Lex.left _ _ h

theorem terminates (h : s.Valid) : (construction cfg C).Terminates CtorEvent.advances s := by
  apply System.terminates_of_rank (I := Valid) rank Finset.univ _ h
  intro s event s' h hadvances hstep
  refine ⟨h.step hstep, ?_⟩
  have hctor : s'.ctorRank < s.ctorRank → ∃ worker ∈ Finset.univ, s'.rank worker < s.rank worker ∧
      ∀ other, other ≠ worker → s'.rank other ≤ s.rank other := by
    intro hlt
    refine ⟨⟨0, cfg.workerCount_pos⟩, Finset.mem_univ _, rank_lt_of_ctorRank hlt _, ?_⟩
    exact fun other _ => (rank_lt_of_ctorRank hlt other).le
  have hstep : s.step event = some s' := hstep
  cases event with
  | create =>
    apply hctor
    simp only [Construction.step] at hstep
    split at hstep
    . next hpc =>
      have hcount := h.start hpc
      cases hstep
      split
      . simp only [ctorRank, hpc]
        omega
      . simp only [ctorRank, hpc]
        omega
    . cases hstep
  | fail =>
    apply hctor
    simp only [Construction.step] at hstep
    split at hstep
    . next hpc =>
      have hcount := h.start hpc
      cases hstep
      simp only [ctorRank, hpc]
      omega
    . cases hstep
  | go => exact hctor (ctorRank_go hstep)
  | run worker choice =>
    simp only [Construction.step] at hstep
    split at hstep
    . obtain ⟨pool, hpool, rfl⟩ := Option.map_eq_some_iff.mp hstep
      obtain ⟨⟨m, pc⟩, hexec, rfl⟩ := Option.map_eq_some_iff.mp hpool
      have hedge := (h.starting worker).step h.queueState hexec
      refine ⟨worker, Finset.mem_univ _, ?_, ?_⟩
      . apply Prod.Lex.right
        simp only [Function.update_self]
        exact hedge.rank
      . intro other hother
        have hne : Thread.worker other ≠ (.worker worker : Thread cfg C) := fun heq => hother (Thread.worker.inj heq)
        apply le_of_eq
        simp only [rank, ctorRank, Function.update_of_ne hne, hedge.other _ hne]
    . cases hstep
  | spurious => cases hadvances

omit [Fintype C] [DecidableEq C] in
theorem mem_workers {worker : Fin cfg.workerCount} : worker ∈ s.workers ↔ worker < s.started := by
  rw [workers, List.mem_take_iff_getElem]
  simp only [List.getElem_finRange, List.length_finRange]
  constructor
  . rintro ⟨i, hi, rfl⟩
    exact (lt_min_iff.mp hi).1
  . intro hlt
    exact ⟨worker, lt_min hlt worker.isLt, rfl⟩

theorem ended_of_halted (h : s.Valid) (hhalted : (construction cfg C).Halted CtorEvent.advances s)
    : s.pc = .constructed ∨ s.pc = .rethrown := by
  have hcreate : s.step .create = none := hhalted .create rfl
  have hgo : s.go = none := hhalted .go rfl
  cases hpc : s.pc with
  | start =>
    simp only [Construction.step, hpc] at hcreate
    cases hcreate
  | stop | notify =>
    simp only [Construction.go, hpc] at hgo
    cases hgo
  | clear rest =>
    cases rest <;> simp only [Construction.go, hpc] at hgo <;> cases hgo
  | join index rest =>
    simp only [Construction.go, hpc] at hgo
    split at hgo
    . cases hgo
    . next hrunning =>
      exfalso
      obtain ⟨done, hdone, -⟩ := h.joined (index :: rest) (by rw [hpc]; rfl)
      have hmem : index ∈ s.workers := by
        rw [hdone]
        exact List.mem_append_right _ List.mem_cons_self
      have hrun : s.step (.run index .go) = none := hhalted (.run index .go) rfl
      have hstarting := h.starting index
      have hword := h.queueState
      rw [hpc] at hstarting hword
      have hcan := hstarting.can_step (t := .worker index) (fun hexited => hrunning ((h.exited index).mpr hexited))
        (h.awake (by rw [hpc]; rfl) _) hword
      simp only [Construction.step, if_pos (mem_workers.mp hmem), State.step, Option.map_eq_none_iff] at hrun
      rw [hrun] at hcan
      cases hcan
  | rethrown => exact .inr rfl
  | constructed => exact .inl rfl

/--
What holds of the constructor at every moment, and of the pool that it leaves behind.
-/
structure Safe (s : Construction cfg C) : Prop where
  constructed : s.pc = .constructed → (system cfg C).Reachable s.pool ∧ s.started = cfg.workerCount
  rethrown : s.pc = .rethrown → (∀ worker ∈ s.workers, s.pool.pc (.worker worker) = .exited) ∧
    ∀ mutex, s.pool.memory.owner mutex = none
  terminates : (construction cfg C).Terminates CtorEvent.advances s
  ends : (construction cfg C).Halted CtorEvent.advances s → s.pc = .constructed ∨ s.pc = .rethrown

end Construction

theorem construction_safe {cfg : Config} {C : Type} [Fintype C] [DecidableEq C] {s : Construction cfg C}
    (hs : (construction cfg C).Reachable s)
    : s.Safe := by
  have hv := Construction.valid hs
  constructor
  case constructed => exact fun hpc => ⟨hv.pool (by rw [hpc]; rfl), hv.started hpc⟩
  case rethrown =>
    intro hpc
    obtain ⟨done, hdone, hexited⟩ := hv.joined [] (by rw [hpc]; rfl)
    rw [List.append_nil] at hdone
    refine ⟨?_, hv.owner⟩
    rw [hdone]
    exact hexited
  case terminates => exact Construction.terminates hv
  case ends => exact Construction.ended_of_halted hv

-- The first worker sleeps when the second one cannot be created.
def failedConstruction : List (CtorEvent pairConfig Unit) :=
  let worker : Fin pairConfig.workerCount := ⟨0, Nat.two_pos⟩
  .create :: List.replicate 4 (.run worker .go) ++ .fail :: List.replicate 3 .go ++
    List.replicate 4 (.run worker .go) ++ List.replicate 2 .go

theorem construction_safe_pair
    : ∃ s : Construction pairConfig Unit, s.pc = .rethrown ∧ s.started = 1 ∧ s.Safe := by
  have hrun : ((construction pairConfig Unit).run .init failedConstruction).map
      (fun s => decide (s.pc = .rethrown) && decide (s.started = 1)) = some true := by
    decide +kernel
  obtain ⟨s, hs, hp⟩ := System.exists_of_run _ hrun
  simp only [Bool.and_eq_true, decide_eq_true_eq] at hp
  exact ⟨s, hp.1, hp.2, construction_safe hs⟩

end Vosp.Pool
