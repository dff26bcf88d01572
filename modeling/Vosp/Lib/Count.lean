import Mathlib.Algebra.BigOperators.Group.Finset.Basic
import Mathlib.Algebra.Order.BigOperators.Group.Finset
import Mathlib.Data.Fintype.BigOperators

/-!
This module contains sums over a finite set of threads, and how such a sum changes when one thread
moves.
-/

namespace Count

variable {τ : Type} [Fintype τ] [DecidableEq τ]

-- Stated without subtraction, so that `omega` can use it.
theorem sum_change {f f' : τ → Nat} (t : τ) (h : ∀ u, u ≠ t → f' u = f u)
    : ∑ u, f' u + f t = ∑ u, f u + f' t := by
  have hrest : ∑ u ∈ Finset.univ.erase t, f' u = ∑ u ∈ Finset.univ.erase t, f u := by
    apply Finset.sum_congr rfl
    intro u hu
    exact h u (Finset.ne_of_mem_erase hu)
  have hf := Finset.add_sum_erase Finset.univ f (Finset.mem_univ t)
  have hf' := Finset.add_sum_erase Finset.univ f' (Finset.mem_univ t)
  omega

theorem sum_change_two {f f' : τ → Nat} {t u : τ} (hne : t ≠ u) (h : ∀ v, v ≠ t → v ≠ u → f' v = f v)
    : ∑ v, f' v + f t + f u = ∑ v, f v + f' t + f' u := by
  have hfirst := @sum_change τ _ _ f (Function.update f t (f' t)) t (fun v hv => Function.update_of_ne hv _ _)
  have hsecond : ∑ v, f' v + Function.update f t (f' t) u = ∑ v, Function.update f t (f' t) v + f' u := by
    apply sum_change u
    intro v hv
    by_cases hvt : v = t
    . rw [hvt, Function.update_self]
    . rw [Function.update_of_ne hvt, h v hvt hv]
  rw [Function.update_self] at hfirst
  rw [Function.update_of_ne hne.symm] at hsecond
  omega

theorem sum_update (f : β → Nat) (g : τ → β) (t : τ) (b : β)
    : ∑ u, f (Function.update g t b u) + f (g t) = ∑ u, f (g u) + f b := by
  have hchange : ∀ u, u ≠ t → f (Function.update g t b u) = f (g u) := by
    intro u hu
    rw [Function.update_of_ne hu]
  have := sum_change t hchange
  rwa [Function.update_self] at this

omit [DecidableEq τ] in
theorem le_sum (f : τ → Nat) (t : τ) : f t ≤ ∑ u, f u := by
  exact Finset.single_le_sum (fun _ _ => Nat.zero_le _) (Finset.mem_univ t)

theorem add_le_sum (f : τ → Nat) {t u : τ} (h : t ≠ u) : f t + f u ≤ ∑ v, f v := by
  rw [← Finset.sum_pair h]
  exact Finset.sum_le_sum_of_subset (Finset.subset_univ _)

omit [DecidableEq τ] in
theorem exists_of_sum_pos {f : τ → Nat} (h : 0 < ∑ t, f t) : ∃ t, 0 < f t := by
  obtain ⟨t, _, ht⟩ := Finset.exists_ne_zero_of_sum_ne_zero (Nat.ne_of_gt h)
  exact ⟨t, Nat.pos_of_ne_zero ht⟩

omit [DecidableEq τ] in
theorem sum_eq_zero_iff {f : τ → Nat} : ∑ u, f u = 0 ↔ ∀ u, f u = 0 := by
  simp

omit [DecidableEq τ] in
theorem sum_le {f : τ → Nat} {n : Nat} (h : ∀ u, f u ≤ n) : ∑ u, f u ≤ Fintype.card τ * n := by
  have := Finset.sum_le_card_nsmul Finset.univ f n (fun u _ => h u)
  simpa using this

end Count
