import Mathlib.Data.List.Basic

/-!
This module contains texts that consist of terminated lines: `lines d` cuts a text after every
terminator `d` and drops what follows the last one.
-/

def lines [BEq α] (d : α) (text : List α) : List (List α) := (text.splitOn d).dropLast

variable {α : Type u} {β : Type v} [BEq α] {d : α}

theorem splitOn_flatMap [ReflBEq α] (body : β → List α) (xs : List β)
    : (xs.flatMap fun x => body x ++ [d]).splitOn d = (xs.flatMap fun x => (body x).splitOn d) ++ [[]] := by
  induction xs with
  | nil => rfl
  | cons x xs ih =>
    rw [List.flatMap_cons, List.append_assoc, List.singleton_append, List.splitOn_append_cons_self, ih,
      List.flatMap_cons, List.append_assoc]

theorem lines_flatMap [ReflBEq α] (body : β → List α) (xs : List β)
    : lines d (xs.flatMap fun x => body x ++ [d]) = xs.flatMap fun x => (body x).splitOn d := by
  rw [lines, splitOn_flatMap, List.dropLast_concat]

theorem lines_eq_map [LawfulBEq α] {body : β → List α} {xs : List β} (h : ∀ x ∈ xs, d ∉ body x)
    : lines d (xs.flatMap fun x => body x ++ [d]) = xs.map body := by
  rw [lines_flatMap, List.map_eq_flatMap]
  apply List.flatMap_congr
  intro x hx
  exact List.splitOn_eq_singleton (h x hx)

theorem length_splitOn_pos (text : List α) : 1 ≤ (text.splitOn d).length :=
  List.length_pos_iff.mpr (List.splitOn_ne_nil d text)

theorem one_lt_length_splitOn [ReflBEq α] {text : List α} (h : d ∈ text) : 1 < (text.splitOn d).length := by
  obtain ⟨front, rest, rfl⟩ := List.append_of_mem h
  rw [List.splitOn_append_cons_self, List.length_append]
  have hfront := length_splitOn_pos (d := d) front
  have hrest := length_splitOn_pos (d := d) rest
  omega

theorem length_le_length_lines [ReflBEq α] (body : β → List α) (xs : List β)
    : xs.length ≤ (lines d (xs.flatMap fun x => body x ++ [d])).length := by
  rw [lines_flatMap]
  induction xs with
  | nil => exact Nat.le_refl _
  | cons x xs ih =>
    have hx := length_splitOn_pos (d := d) (body x)
    rw [List.flatMap_cons, List.length_append, List.length_cons]
    omega

theorem not_mem_of_length_lines [ReflBEq α] {body : β → List α} {xs : List β}
    (h : (lines d (xs.flatMap fun x => body x ++ [d])).length = xs.length)
    : ∀ x ∈ xs, d ∉ body x := by
  induction xs with
  | nil => nofun
  | cons x xs ih =>
    have hle := length_le_length_lines (d := d) body xs
    have hx := length_splitOn_pos (d := d) (body x)
    rw [lines_flatMap] at h hle ih
    rw [List.flatMap_cons, List.length_append, List.length_cons] at h
    rw [List.forall_mem_cons]
    constructor
    . intro hmem
      have hlt := one_lt_length_splitOn hmem
      omega
    . exact ih (by omega)
