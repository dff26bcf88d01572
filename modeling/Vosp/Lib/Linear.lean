import Mathlib.Data.List.Nodup
import Mathlib.Logic.Function.Basic

/-!
This module contains the linearisation of concurrent calls. The log has the operations in the order of the
instants at which they took effect; `replay` runs them one after the other and compares the responses. `first`
and `last` are the lengths of the log when a call starts and returns, so an entry with an index in between
belongs to an instant inside of the call.
-/

namespace Linear

structure Entry (ι ω ρ : Type) where
  call : ι
  operation : ω
  response : ρ

section replay

variable {ι σ ω ρ : Type} [DecidableEq ρ] {run : σ → ω → ρ × σ} {state state' state'' : σ}
  {log : List (Entry ι ω ρ)}

def replay (run : σ → ω → ρ × σ) (state : σ) (log : List (Entry ι ω ρ)) : Option σ :=
  match log with
  | [] => some state
  | entry :: log =>
    if (run state entry.operation).1 = entry.response then
      replay run (run state entry.operation).2 log
    else
      none

theorem replay_cons {entry : Entry ι ω ρ} (h : replay run state (entry :: log) = some state')
    : (run state entry.operation).1 = entry.response ∧
        replay run (run state entry.operation).2 log = some state' := by
  rw [replay] at h
  split at h
  . next hresponse => exact ⟨hresponse, h⟩
  . cases h

theorem replay_concat (h : replay run state log = some state') {operation : ω} {response : ρ}
    (hrun : run state' operation = (response, state'')) (call : ι)
    : replay run state (log ++ [⟨call, operation, response⟩]) = some state'' := by
  induction log generalizing state with
  | nil =>
    cases h
    simp [replay, hrun]
  | cons entry log ih =>
    obtain ⟨hresponse, hlog⟩ := replay_cons h
    rw [List.cons_append, replay, if_pos hresponse]
    exact ih hlog

theorem replay_take (h : replay run state log = some state') {i : Nat} {entry : Entry ι ω ρ}
    (hentry : log[i]? = some entry)
    : ∃ before, replay run state (log.take i) = some before ∧ (run before entry.operation).1 = entry.response := by
  induction log generalizing state i with
  | nil => cases hentry
  | cons other log ih =>
    obtain ⟨hresponse, hlog⟩ := replay_cons h
    cases i with
    | zero =>
      cases hentry
      exact ⟨state, rfl, hresponse⟩
    | succ i =>
      obtain ⟨before, hbefore, hrun⟩ := ih hlog hentry
      refine ⟨before, ?_, hrun⟩
      rw [List.take_succ_cons, replay, if_pos hresponse]
      exact hbefore

theorem replay_invariant {I : σ → Prop} (hI : ∀ state operation, I state → I (run state operation).2)
    (h : replay run state log = some state') (hstate : I state)
    : I state' := by
  induction log generalizing state with
  | nil =>
    cases h
    exact hstate
  | cons entry log ih =>
    obtain ⟨-, hlog⟩ := replay_cons h
    exact ih hlog (hI _ _ hstate)

theorem replay_append (state : σ) (log log' : List (Entry ι ω ρ))
    : replay run state (log ++ log') = (replay run state log).bind fun state => replay run state log' := by
  induction log generalizing state with
  | nil => rfl
  | cons entry log ih =>
    simp only [List.cons_append, replay]
    split
    . exact ih _
    . rfl

theorem replay_keeps {I : σ → Prop} (h : replay run state log = some state')
    (hI : ∀ entry ∈ log, ∀ state, I state → I (run state entry.operation).2) (hstate : I state)
    : I state' := by
  induction log generalizing state with
  | nil =>
    cases h
    exact hstate
  | cons entry log ih =>
    obtain ⟨-, hlog⟩ := replay_cons h
    apply ih hlog
    . exact fun other hother => hI other (List.mem_cons_of_mem _ hother)
    . exact hI entry List.mem_cons_self _ hstate

end replay

/--
How far a call is. A call outside of the log has nothing to do with the object.
-/
inductive Progress (ω ρ : Type) where
  | outside
  | pending
  | done (operation : ω) (response : ρ)
  | returned (operation : ω) (response : ρ)

def Progress.logged {ω ρ : Type} (progress : Progress ω ρ) : Prop :=
  match progress with
  | .outside | .pending => False
  | .done _ _ | .returned _ _ => True

structure Tracked (log : List (Entry ι ω ρ)) (first last : ι → Nat) (progress : ι → Progress ω ρ) : Prop where
  once : (log.map Entry.call).Nodup
  fresh : ∀ call, ¬(progress call).logged → call ∉ log.map Entry.call
  pending : ∀ call, progress call = .pending → first call ≤ log.length
  done : ∀ call operation response, progress call = .done operation response →
    ∃ i, first call ≤ i ∧ log[i]? = some ⟨call, operation, response⟩
  returned : ∀ call operation response, progress call = .returned operation response →
    ∃ i, first call ≤ i ∧ i < last call ∧ log[i]? = some ⟨call, operation, response⟩

namespace Tracked

variable {ι ω ρ : Type} {log : List (Entry ι ω ρ)} {first last : ι → Nat}
  {progress progress' : ι → Progress ω ρ} {call : ι} {operation : ω} {response : ρ}

theorem init (first last : ι → Nat) : Tracked ([] : List (Entry ι ω ρ)) first last (fun _ => .outside) where
  once := List.nodup_nil
  fresh _ _ := List.not_mem_nil
  pending := nofun
  done := nofun
  returned := nofun

variable [DecidableEq ι]

theorem start (h : Tracked log first last progress) (hbefore : progress call = .outside)
    (hafter : progress' call = .pending) (hother : ∀ u, u ≠ call → progress' u = progress u)
    : Tracked log (Function.update first call log.length) last progress' where
  once := h.once
  fresh u hu := by
    apply h.fresh
    by_cases hcall : u = call
    . rw [hcall, hbefore]
      exact id
    . rwa [← hother u hcall]
  pending u hu := by
    by_cases hcall : u = call
    . subst hcall
      exact Nat.le_of_eq (Function.update_self _ _ _)
    . rw [Function.update_of_ne hcall]
      exact h.pending u (hother u hcall ▸ hu)
  done u operation response hu := by
    have hcall : u ≠ call := ne_of_apply_ne progress' (by rw [hu, hafter]; nofun)
    rw [Function.update_of_ne hcall]
    exact h.done u operation response (hother u hcall ▸ hu)
  returned u operation response hu := by
    have hcall : u ≠ call := ne_of_apply_ne progress' (by rw [hu, hafter]; nofun)
    rw [Function.update_of_ne hcall]
    exact h.returned u operation response (hother u hcall ▸ hu)

theorem effect (h : Tracked log first last progress) (hbefore : progress call = .pending)
    (hafter : progress' call = .done operation response) (hother : ∀ u, u ≠ call → progress' u = progress u)
    : Tracked (log ++ [⟨call, operation, response⟩]) first last progress' where
  once := by
    rw [List.map_append, List.map_singleton, List.nodup_append]
    refine ⟨h.once, List.nodup_singleton _, ?_⟩
    rintro u hu v hv rfl
    rw [List.mem_singleton.mp hv] at hu
    exact h.fresh call (by rw [hbefore]; exact id) hu
  fresh u hu := by
    have hcall : u ≠ call := by
      rintro rfl
      rw [hafter] at hu
      exact hu trivial
    rw [List.map_append, List.map_singleton, List.mem_append, List.mem_singleton, not_or]
    exact ⟨h.fresh u (hother u hcall ▸ hu), hcall⟩
  pending u hu := by
    have hcall : u ≠ call := ne_of_apply_ne progress' (by rw [hu, hafter]; nofun)
    rw [List.length_append]
    exact Nat.le_add_right_of_le (h.pending u (hother u hcall ▸ hu))
  done u operation' response' hu := by
    by_cases hcall : u = call
    . subst hcall
      rw [hafter] at hu
      cases hu
      exact ⟨log.length, h.pending u hbefore, List.getElem?_concat_length⟩
    . obtain ⟨i, hfirst, hentry⟩ := h.done u operation' response' (hother u hcall ▸ hu)
      exact ⟨i, hfirst, (List.getElem?_append_left (List.getElem?_eq_some_iff.mp hentry).1).trans hentry⟩
  returned u operation' response' hu := by
    have hcall : u ≠ call := ne_of_apply_ne progress' (by rw [hu, hafter]; nofun)
    obtain ⟨i, hfirst, hlast, hentry⟩ := h.returned u operation' response' (hother u hcall ▸ hu)
    exact ⟨i, hfirst, hlast, (List.getElem?_append_left (List.getElem?_eq_some_iff.mp hentry).1).trans hentry⟩

theorem finish (h : Tracked log first last progress) (hbefore : progress call = .done operation response)
    (hafter : progress' call = .returned operation response) (hother : ∀ u, u ≠ call → progress' u = progress u)
    : Tracked log first (Function.update last call log.length) progress' where
  once := h.once
  fresh u hu := by
    have hcall : u ≠ call := by
      rintro rfl
      rw [hafter] at hu
      exact hu trivial
    exact h.fresh u (hother u hcall ▸ hu)
  pending u hu := by
    have hcall : u ≠ call := ne_of_apply_ne progress' (by rw [hu, hafter]; nofun)
    exact h.pending u (hother u hcall ▸ hu)
  done u operation response hu := by
    have hcall : u ≠ call := ne_of_apply_ne progress' (by rw [hu, hafter]; nofun)
    exact h.done u operation response (hother u hcall ▸ hu)
  returned u operation response hu := by
    by_cases hcall : u = call
    . subst hcall
      rw [hafter] at hu
      cases hu
      obtain ⟨i, hfirst, hentry⟩ := h.done u operation response hbefore
      rw [Function.update_self]
      exact ⟨i, hfirst, (List.getElem?_eq_some_iff.mp hentry).1, hentry⟩
    . rw [Function.update_of_ne hcall]
      exact h.returned u operation response (hother u hcall ▸ hu)

theorem skip (h : Tracked log first last progress) (hbefore : ¬(progress call).logged)
    (hafter : progress' call = .outside) (hother : ∀ u, u ≠ call → progress' u = progress u)
    : Tracked log first (Function.update last call log.length) progress' where
  once := h.once
  fresh u hu := by
    apply h.fresh
    by_cases hcall : u = call
    . exact hcall ▸ hbefore
    . rwa [← hother u hcall]
  pending u hu := by
    have hcall : u ≠ call := ne_of_apply_ne progress' (by rw [hu, hafter]; nofun)
    exact h.pending u (hother u hcall ▸ hu)
  done u operation response hu := by
    have hcall : u ≠ call := ne_of_apply_ne progress' (by rw [hu, hafter]; nofun)
    exact h.done u operation response (hother u hcall ▸ hu)
  returned u operation response hu := by
    have hcall : u ≠ call := ne_of_apply_ne progress' (by rw [hu, hafter]; nofun)
    rw [Function.update_of_ne hcall]
    exact h.returned u operation response (hother u hcall ▸ hu)

end Tracked

end Linear
