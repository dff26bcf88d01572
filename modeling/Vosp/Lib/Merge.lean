import Mathlib.Data.List.Count
import Mathlib.Data.List.Sublists
import Mathlib.Logic.Function.Basic

/-!
This module contains the merging of sequences through buffers. The producer `k` puts its items one after
the other: an item is `inflight` first, then `pending` in the buffer of its producer, and at last in the
common `log` or, if the log could not take the buffer, `lost`.
-/

structure Merge [DecidableEq α] [DecidableEq κ] (key : α → κ) (items log lost : List α)
    (pending inflight : κ → List α) : Prop where
  order : ∀ k, ((log.filter (key · = k)) ++ pending k ++ inflight k).Sublist (items.filter (key · = k))
  total : ∀ a, log.count a + (pending (key a)).count a + (inflight (key a)).count a + lost.count a =
    items.count a

namespace Merge

variable {key : α → κ} {items log lost : List α} {pending pending' inflight inflight' : κ → List α} {k : κ}
  {a : α}

theorem filter_eq_nil [DecidableEq κ] {list : List α} {k l : κ} (h : ∀ a ∈ list, key a = k) (hne : l ≠ k)
    : list.filter (key · = l) = [] := by
  rw [List.filter_eq_nil_iff]
  intro a ha hl
  rw [h a ha, decide_eq_true_eq] at hl
  exact hne hl.symm

theorem filter_eq_self [DecidableEq κ] {list : List α} (h : ∀ a ∈ list, key a = k)
    : list.filter (key · = k) = list := by
  rw [List.filter_eq_self]
  intro a ha
  exact decide_eq_true (h a ha)

theorem count_eq_zero [DecidableEq α] {list : List α} (h : ∀ a ∈ list, key a = k) (hne : key a ≠ k)
    : list.count a = 0 := by
  rw [List.count_eq_zero]
  intro ha
  exact hne (h a ha)

variable [DecidableEq α] [DecidableEq κ]

theorem init : Merge key [] [] [] (fun _ => []) (fun _ => []) where
  order _ := List.Sublist.refl _
  total _ := rfl

theorem key_of_pending (h : Merge key items log lost pending inflight) (ha : a ∈ pending k) : key a = k := by
  have hmem : a ∈ items.filter (key · = k) := by
    apply (h.order k).subset
    exact List.mem_append_left _ (List.mem_append_right _ ha)
  exact of_decide_eq_true (List.mem_filter.mp hmem).2

theorem start (h : Merge key items log lost pending inflight) (ha : key a = k) (hidle : inflight k = [])
    (hk : inflight' k = [a]) (hne : ∀ l, l ≠ k → inflight' l = inflight l)
    : Merge key (items ++ [a]) log lost pending inflight' := by
  have hone : ∀ b ∈ [a], key b = k := by simpa using ha
  constructor
  . intro l
    rw [List.filter_append]
    by_cases hl : l = k
    . subst hl
      have horder := h.order l
      rw [hidle, List.append_nil] at horder
      rw [hk, filter_eq_self hone]
      exact horder.append (List.Sublist.refl _)
    . rw [hne l hl, filter_eq_nil hone hl, List.append_nil]
      exact h.order l
  . intro b
    have htotal := h.total b
    rw [List.count_append]
    by_cases hb : key b = k
    . rw [hb, hk]
      rw [hb, hidle, List.count_nil] at htotal
      omega
    . rw [hne _ hb, count_eq_zero hone hb]
      exact htotal

theorem push (h : Merge key items log lost pending inflight) (ha : inflight k = [a])
    (hpending : pending' = Function.update pending k (pending k ++ [a])) (hk : inflight' k = [])
    (hne : ∀ l, l ≠ k → inflight' l = inflight l)
    : Merge key items log lost pending' inflight' := by
  subst hpending
  constructor
  . intro l
    have horder := h.order l
    by_cases hl : l = k
    . subst hl
      rw [ha] at horder
      rw [Function.update_self, hk, List.append_nil, ← List.append_assoc]
      exact horder
    . rw [Function.update_of_ne hl, hne l hl]
      exact horder
  . intro b
    have htotal := h.total b
    by_cases hb : key b = k
    . rw [hb, ha] at htotal
      rw [hb, Function.update_self, hk, List.count_append, List.count_nil]
      omega
    . rw [Function.update_of_ne hb, hne _ hb]
      exact htotal

theorem drain (h : Merge key items log lost pending inflight) (k : κ)
    : Merge key items (log ++ pending k) lost (Function.update pending k []) inflight := by
  have hkey : ∀ a ∈ pending k, key a = k := fun a => h.key_of_pending
  constructor
  . intro l
    have horder := h.order l
    rw [List.filter_append]
    by_cases hl : l = k
    . subst hl
      rw [Function.update_self, filter_eq_self hkey, List.append_nil]
      exact horder
    . rw [Function.update_of_ne hl, filter_eq_nil hkey hl, List.append_nil]
      exact horder
  . intro b
    have htotal := h.total b
    rw [List.count_append]
    by_cases hb : key b = k
    . rw [hb] at htotal ⊢
      rw [Function.update_self, List.count_nil]
      omega
    . rw [Function.update_of_ne hb, count_eq_zero hkey hb]
      exact htotal

theorem lose (h : Merge key items log lost pending inflight) (k : κ)
    : Merge key items log (lost ++ pending k) (Function.update pending k []) inflight := by
  have hkey : ∀ a ∈ pending k, key a = k := fun a => h.key_of_pending
  constructor
  . intro l
    have horder := h.order l
    by_cases hl : l = k
    . subst hl
      rw [Function.update_self, List.append_nil]
      exact (List.append_sublist_append_right _).mpr (List.sublist_append_left _ _) |>.trans horder
    . rw [Function.update_of_ne hl]
      exact horder
  . intro b
    have htotal := h.total b
    rw [List.count_append]
    by_cases hb : key b = k
    . rw [hb] at htotal ⊢
      rw [Function.update_self, List.count_nil]
      omega
    . rw [Function.update_of_ne hb, count_eq_zero hkey hb]
      exact htotal

theorem eq_of_lost_nil (h : Merge key items log [] pending inflight) (k : κ)
    : log.filter (key · = k) ++ pending k ++ inflight k = items.filter (key · = k) := by
  apply (h.order k).eq_of_length
  apply List.Perm.length_eq
  rw [List.perm_iff_count]
  intro a
  by_cases ha : key a = k
  . have htotal := h.total a
    subst ha
    simp only [List.count_append, List.count_nil, Nat.add_zero] at htotal ⊢
    rw [List.count_filter (by simp), List.count_filter (by simp), htotal]
  . have hitems : a ∉ items.filter (key · = k) := by simp [ha]
    rw [List.count_eq_zero_of_not_mem hitems, List.count_eq_zero_of_not_mem]
    intro hmem
    exact hitems ((h.order k).subset hmem)

theorem mem_cases (h : Merge key items log lost pending inflight) (ha : a ∈ items)
    : a ∈ log ∨ a ∈ pending (key a) ∨ a ∈ inflight (key a) ∨ a ∈ lost := by
  have htotal := h.total a
  have hpos := List.count_pos_iff.mpr ha
  simp only [← List.count_pos_iff]
  omega

theorem nodup (h : Merge key items log lost pending inflight) (hnodup : items.Nodup) : log.Nodup := by
  rw [List.nodup_iff_count_le_one] at hnodup ⊢
  intro a
  have htotal := h.total a
  have hle := hnodup a
  omega

theorem pass (h : Merge key items log lost (fun _ => []) inflight) (ha : inflight k = [a])
    (hk : inflight' k = []) (hne : ∀ l, l ≠ k → inflight' l = inflight l)
    : Merge key items (log ++ [a]) lost (fun _ => []) inflight' := by
  have hpush := (h.push ha rfl hk hne).drain k
  rw [Function.update_self, Function.update_idem, List.nil_append, Function.update_eq_self] at hpush
  exact hpush

end Merge
