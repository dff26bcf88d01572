import Vosp.Pool.Idle
import Vosp.Pool.Stopping

/-!
This module shows that a call of `shutdown` by a client joins every worker: the list of the workers
is moved out by one caller, who removes a worker from it only after that worker has exited, and the
next caller waits for the shutdown mutex.
-/

namespace Vosp.Pool

variable {cfg : Config} {C : Type}

namespace Pc

def joins (pc : Pc cfg) : Bool :=
  match pc with
  | .joinUnlock _ | .join _ => true
  | _ => false

def joining (pc : Pc cfg) : List (Fin cfg.workerCount) :=
  match pc with
  | .joinUnlock rest | .join rest => rest
  | _ => []

def shutDown (pc : Pc cfg) : Bool :=
  match pc with
  | .resting none (some .shutDown) => true
  | _ => false

theorem joins_of_mem {pc : Pc cfg} {i : Fin cfg.workerCount} (h : i ∈ pc.joining) : pc.joins = true := by
  cases pc
  all_goals first | rfl | cases h

theorem holds_of_joins {pc : Pc cfg} (h : pc.joins = true) : pc.holds .shutdown = true := by
  cases pc
  all_goals first | rfl | cases h

end Pc

namespace Edge

variable {t : Thread cfg C} {m : Memory cfg C} {pc pc' : Pc cfg} {op : Op cfg}
  {i : Fin cfg.workerCount}

theorem joins (h : Edge t m pc op pc') (hpc : pc'.joins = true) : pc.joins = true ∨ op = .swapWorkers := by
  cases h
  all_goals first | exact .inl rfl | exact .inr rfl | cases hpc

theorem joining (h : Edge t m pc op pc') (hi : i ∈ pc.joining)
    : i ∈ pc'.joining ∨ m.exited (.worker i) = true := by
  cases h
  case join hexited =>
    cases hi with
    | head => exact .inr hexited
    | tail _ hrest => exact .inl hrest
  all_goals first | exact .inl hi | cases hi

theorem joining_swap (h : Edge t m pc .swapWorkers pc') : pc'.joining = m.workers := by
  cases h
  rfl

theorem shutDown (h : Edge t m pc op pc') (hpc : pc'.shutDown = true) : pc = .join [] := by
  cases h
  all_goals first | rfl | cases hpc | cases ‹Context› <;> cases hpc

theorem not_exited (h : Edge t m .exited op pc') : False := by
  cases h

theorem exited_of_exit (h : Edge t m pc .exit pc') : pc' = .exited := by
  cases h
  rfl

end Edge

namespace Effect

variable [DecidableEq C] {t u : Thread cfg C} {choice : Choice cfg C} {op : Op cfg}
  {m m' : Memory cfg C}

theorem exited_mono (h : Effect t choice op m m') (hu : m.exited u = true) : m'.exited u = true := by
  cases h
  case exit =>
    by_cases hut : u = t
    . simp [hut]
    . simpa [hut] using hu
  case cancel hcancel =>
    obtain ⟨_, _, rfl⟩ := Memory.cancel_eq hcancel
    exact hu
  case complete hcomplete =>
    obtain ⟨_, _, rfl⟩ := Memory.complete_eq hcomplete
    exact hu
  all_goals exact hu

theorem exited (h : Effect t choice op m m') (hu : m'.exited u = true)
    : m.exited u = true ∨ u = t ∧ op = .exit := by
  cases h
  case exit =>
    by_cases hut : u = t
    . exact .inr ⟨hut, rfl⟩
    . left
      simpa [hut] using hu
  case cancel hcancel =>
    obtain ⟨_, _, rfl⟩ := Memory.cancel_eq hcancel
    exact .inl hu
  case complete hcomplete =>
    obtain ⟨_, _, rfl⟩ := Memory.complete_eq hcomplete
    exact .inl hu
  all_goals exact .inl hu

theorem workers_eq (h : Effect t choice op m m') : m'.workers = m.workers ∨ op = .swapWorkers ∧ m'.workers = [] := by
  cases h
  case swapWorkers => exact .inr ⟨rfl, rfl⟩
  case cancel hcancel =>
    obtain ⟨_, _, rfl⟩ := Memory.cancel_eq hcancel
    exact .inl rfl
  case complete hcomplete =>
    obtain ⟨_, _, rfl⟩ := Memory.complete_eq hcomplete
    exact .inl rfl
  all_goals exact .inl rfl

end Effect

variable [Fintype C] [DecidableEq C]

namespace State

variable {s : State cfg C}

theorem pc_of_exited (hs : (system cfg C).Reachable s)
    : ∀ t, s.memory.exited t = true → s.pc t = .exited := by
  apply reachable_induction _ _ _ hs
  . nofun
  . intro s t choice op pc' m' _ h hedge heffect
    apply forall_update (fun u pc => m'.exited u = true → pc = .exited)
    . intro hexited
      cases heffect.exited hexited with
      | inl hbefore =>
        rw [h t hbefore] at hedge
        exact hedge.not_exited.elim
      | inr hexit =>
        rw [hexit.2] at hedge
        exact hedge.exited_of_exit
    . intro u hu hexited
      cases heffect.exited hexited with
      | inl hbefore => exact h u hbefore
      | inr hexit => exact absurd hexit.1 hu
  . intro s t _ h
    exact h

theorem workers_of_joins (hs : (system cfg C).Reachable s)
    : ∀ t, (s.pc t).joins = true → s.memory.workers = [] := by
  apply reachable_induction _ _ _ hs
  . rintro (_ | _) h
    all_goals cases h
  . intro s t choice op pc' m' _ h hedge heffect
    have hempty : s.memory.workers = [] → m'.workers = [] := by
      intro hempty
      cases heffect.workers_eq with
      | inl heq => rw [heq, hempty]
      | inr hswap => exact hswap.2
    apply forall_update (fun _ pc => pc.joins = true → m'.workers = [])
    . intro hjoins
      cases hedge.joins hjoins with
      | inl hbefore => exact hempty (h t hbefore)
      | inr hop =>
        subst hop
        cases heffect
        rfl
    . exact fun u _ hjoins => hempty (h u hjoins)
  . intro s t _ h
    exact h

theorem joined_or_listed (hs : (system cfg C).Reachable s) (i : Fin cfg.workerCount)
    : s.memory.exited (.worker i) = true ∨ i ∈ s.memory.workers ∨ ∃ t, i ∈ (s.pc t).joining := by
  apply reachable_induction _ _ _ hs
  . exact .inr (.inl (List.mem_finRange i))
  . intro s t choice op pc' m' _ h hedge heffect
    have hself : Function.update s.pc t pc' t = pc' := Function.update_self _ _ _
    rcases h with hexited | hlisted | ⟨u, hu⟩
    . exact .inl (heffect.exited_mono hexited)
    . cases heffect.workers_eq with
      | inl heq => exact .inr (.inl (heq ▸ hlisted))
      | inr hswap =>
        rw [hswap.1] at hedge
        refine .inr (.inr ⟨t, ?_⟩)
        show i ∈ (Function.update s.pc t pc' t).joining
        rwa [hself, hedge.joining_swap]
    . by_cases hut : u = t
      . rw [hut] at hu
        cases hedge.joining hu with
        | inl hjoining =>
          refine .inr (.inr ⟨t, ?_⟩)
          show i ∈ (Function.update s.pc t pc' t).joining
          rwa [hself]
        | inr hexited => exact .inl (heffect.exited_mono hexited)
      . exact .inr (.inr ⟨u, by simpa [hut] using hu⟩)
  . intro s t _ h
    exact h

theorem exited_of_join (hs : (system cfg C).Reachable s) {t : Thread cfg C} (hpc : s.pc t = .join [])
    (i : Fin cfg.workerCount)
    : s.memory.exited (.worker i) = true := by
  have hjoins : (s.pc t).joins = true := by
    rw [hpc]
    rfl
  rcases joined_or_listed hs i with hexited | hlisted | ⟨u, hu⟩
  . exact hexited
  . rw [workers_of_joins hs t hjoins] at hlisted
    cases hlisted
  . have hholds := Pc.holds_of_joins hjoins
    have hholds' := Pc.holds_of_joins (Pc.joins_of_mem hu)
    rw [(locked hs).unique hholds' hholds, hpc] at hu
    cases hu

theorem exited_of_shutDown (hs : (system cfg C).Reachable s)
    : ∀ t, (s.pc t).shutDown = true → ∀ i, s.memory.exited (.worker i) = true := by
  apply reachable_induction _ _ _ hs
  . rintro (_ | _) h
    all_goals cases h
  . intro s t choice op pc' m' hs h hedge heffect
    apply forall_update (fun _ pc => pc.shutDown = true → ∀ i, m'.exited (.worker i) = true)
    . intro hshutDown i
      exact heffect.exited_mono (exited_of_join hs (hedge.shutDown hshutDown) i)
    . intro u _ hshutDown i
      exact heffect.exited_mono (h u hshutDown i)
  . intro s t _ h
    exact h

structure Finished (s : State cfg C) : Prop where
  exited : ∀ i, s.pc (.worker i) = .exited
  pending_eq : s.memory.pendingTasks = 0
  active_eq : s.memory.activeTasks = 0
  idle : s.Idle
  settled : ∀ item ∈ s.memory.history.accepted, s.At item .executed ∨ s.At item .cancelled

theorem finished (hs : (system cfg C).Reachable s) (hexited : ∀ i, s.memory.exited (.worker i) = true)
    : s.Finished := by
  have hcounted := counted hs
  have hpc : ∀ i, s.pc (.worker i) = .exited := fun i => pc_of_exited hs _ (hexited i)
  have hpending : s.memory.pendingTasks = 0 := by
    apply (drained hs (.worker ⟨0, cfg.workerCount_pos⟩) _).1
    rw [hpc]
    rfl
  have hempty := hcounted.pending_eq.symm.trans hpending
  have hactive : ∀ t, (s.pc t).active = 0 := by
    rintro (i | name)
    . rw [hpc]
      rfl
    . exact Pc.active_eq_zero (hcounted.kind (.client name))
  have hhands : ∀ t, (s.pc t).hands = [] := by
    rintro (i | name)
    . rw [hpc]
      rfl
    . exact Pc.hands_eq_nil (hcounted.kind (.client name))
  have hidle : s.Idle := by
    refine ⟨?_, hhands, hactive⟩
    apply List.eq_nil_of_length_eq_zero
    rw [List.length_append, hempty]
  refine ⟨hpc, hpending, ?_, hidle, ?_⟩
  . rw [hcounted.active_eq, Count.sum_eq_zero_iff.mpr hactive]
  . intro item hitem
    obtain ⟨place, hplace⟩ := exists_at hs hitem
    cases place with
    | queued =>
      have hqueue : s.memory.history.queue = [] := (List.append_eq_nil_iff.mp hidle.queue_eq).2
      have hmem : item ∈ s.memory.history.queue := hplace
      rw [hqueue] at hmem
      cases hmem
    | claimed i =>
      have hmem : item ∈ (s.pc (.worker i)).hands := hplace
      rw [hhands] at hmem
      cases hmem
    | executed => exact .inl hplace
    | cancelled => exact .inr hplace

end State

end Vosp.Pool
