import Vosp.Pool.Settlement

/-!
This module contains the order in which a pool with a single worker executes: the tasks that it has
executed, followed by those in its hands, are in the order in which the pool accepted them.
-/

namespace Vosp.Pool

variable {cfg : Config} {C : Type}

def Config.firstWorker (cfg : Config) : Fin cfg.workerCount := ⟨0, cfg.workerCount_pos⟩

theorem Config.eq_firstWorker (h : cfg.workerCount = 1) (index : Fin cfg.workerCount)
    : index = cfg.firstWorker := by
  apply Fin.ext
  have hlt := index.isLt
  simp only [firstWorker]
  omega

theorem Edge.onWorker_of_handles {t : Thread cfg C} {m : Memory cfg C} {pc pc' : Pc cfg} {op : Op cfg}
    (h : Edge t m pc op pc') (hop : op.handles = true)
    : pc.onWorker = true := by
  cases h
  all_goals first | rfl | cases hop

variable [Fintype C] [DecidableEq C]

namespace State

variable {s : State cfg C}

def single (s : State cfg C) : List TaskItem :=
  s.memory.history.executed.map (fun e => e.1) ++ (s.pc (.worker cfg.firstWorker)).hands

theorem eq_worker_of_handles (hs : (system cfg C).Reachable s) (hcount : cfg.workerCount = 1)
    {t : Thread cfg C} {op : Op cfg} {pc' : Pc cfg} (hedge : Edge t s.memory (s.pc t) op pc')
    (hop : op.handles = true)
    : t = .worker cfg.firstWorker := by
  have hkind := (counted hs).kind t
  rw [hedge.onWorker_of_handles hop] at hkind
  cases t with
  | worker index => rw [Config.eq_firstWorker hcount index]
  | client name => cases hkind

theorem single_sublist_step (hs : (system cfg C).Reachable s) (hcount : cfg.workerCount = 1)
    (h : s.single.Sublist (s.memory.history.removed ++ s.memory.history.leaving)) {t : Thread cfg C}
    {choice : Choice cfg C} {op : Op cfg} {m' : Memory cfg C} {pc' : Pc cfg}
    (hedge : Edge t s.memory (s.pc t) op pc') (heffect : Effect t choice op s.memory m')
    : (State.single { memory := m', pc := Function.update s.pc t pc' }).Sublist
        (m'.history.removed ++ m'.history.leaving) := by
  unfold single at *
  by_cases hop : op.handles = true
  . have ht := eq_worker_of_handles hs hcount hedge hop
    subst ht
    simp only [Function.update_self]
    cases heffect
    case vacate =>
      rw [hedge.hands_vacate, ← List.append_assoc]
      simp only [Memory.vacate]
      rw [← List.append_assoc]
      exact h.append (List.Sublist.refl _)
    case complete hcomplete =>
      obtain ⟨_, _, rfl⟩ := Memory.complete_eq hcomplete
      rw [hedge.hands_complete] at h
      simpa using h
    all_goals cases hop
  . have hhands : (Function.update s.pc t pc' (.worker cfg.firstWorker)).hands =
        (s.pc (.worker cfg.firstWorker)).hands := by
      by_cases ht : .worker cfg.firstWorker = t
      . rw [ht, Function.update_self]
        exact hedge.hands_eq (by simpa using hop)
      . rw [Function.update_of_ne ht]
    simp only [hhands]
    cases heffect
    case vacate | complete => exact absurd rfl hop
    case cancel hcancel =>
      obtain ⟨_, _, rfl⟩ := Memory.cancel_eq hcancel
      simp only [Memory.vacate]
      rw [← List.append_assoc]
      exact h.trans (List.sublist_append_left _ _)
    case claim | cancelAll => simpa [Memory.claim, Memory.cancelAll, History.release] using h
    all_goals exact h

theorem single_sublist (hs : (system cfg C).Reachable s) (hcount : cfg.workerCount = 1)
    : s.single.Sublist s.memory.history.accepted := by
  have hleft : s.single.Sublist (s.memory.history.removed ++ s.memory.history.leaving) := by
    apply reachable_induction _ _ _ hs
    . exact List.nil_sublist _
    . intro s t choice op pc' m' hs h hedge heffect
      exact single_sublist_step hs hcount h hedge heffect
    . intro s t _ h
      exact h
  rw [(ringed hs).order]
  exact hleft.trans (List.sublist_append_left _ _)

end State

end Vosp.Pool
