import Mathlib.Data.List.Basic
import Mathlib.Logic.Function.Basic
import Mathlib.Tactic.SplitIfs

/-!
This module contains ring buffers of `n` slots. `Holds n slots head l` says that the slots hold
exactly the list `l`, in order and from position `head` on, and that all other slots are empty.
Appending writes the slot `l.length` steps after the head, removing empties the head.
-/

namespace Ring

def next (n i : Nat) : Nat := if i + 1 = n then 0 else i + 1

def dist (n head i : Nat) : Nat := if head ≤ i then i - head else i + n - head

def advance (n head k : Nat) : Nat := if head + k < n then head + k else head + k - n

structure Holds (n : Nat) (slots : Nat → Option α) (head : Nat) (l : List α) : Prop where
  head_lt : head < n
  length_le : l.length ≤ n
  slot_eq : ∀ i, i < n → slots i = l[dist n head i]?

theorem next_lt {n i : Nat} (hi : i < n) : next n i < n := by
  unfold next
  split <;> omega

theorem advance_lt {n head k : Nat} (hhead : head < n) (hk : k ≤ n) : advance n head k < n := by
  unfold advance
  split <;> omega

@[simp]
theorem advance_zero {n head : Nat} (hhead : head < n) : advance n head 0 = head := by
  simp [advance, hhead]

theorem advance_succ {n head k : Nat} (_hhead : head < n) (hk : k < n)
    : advance n head (k + 1) = next n (advance n head k) := by
  unfold advance next
  split_ifs <;> omega

theorem advance_next {n head k : Nat} (_hhead : head < n) (hk : k < n)
    : advance n (next n head) k = advance n head (k + 1) := by
  unfold advance next
  split_ifs <;> omega

theorem dist_advance {n head k : Nat} (hhead : head < n) (hk : k < n)
    : dist n head (advance n head k) = k := by
  unfold dist advance
  split_ifs <;> omega

theorem dist_inj {n head i j : Nat} (hhead : head < n) (hi : i < n) (hj : j < n)
    (h : dist n head i = dist n head j)
    : i = j := by
  unfold dist at h
  split_ifs at h <;> omega

theorem dist_self (n head : Nat) : dist n head head = 0 := by
  simp [dist]

theorem dist_next {n head i : Nat} (hhead : head < n) (hi : i < n) (hne : i ≠ head)
    : dist n head i = dist n (next n head) i + 1 := by
  unfold dist next
  split_ifs <;> omega

theorem dist_next_self {n head : Nat} (hhead : head < n) : dist n (next n head) head = n - 1 := by
  unfold dist next
  split_ifs <;> omega

namespace Holds

variable {n head : Nat} {slots : Nat → Option α} {l : List α} {x : α}

theorem nil (hhead : head < n) : Holds n (fun _ => none) head ([] : List α) where
  head_lt := hhead
  length_le := Nat.zero_le n
  slot_eq := by simp

theorem head_eq (h : Holds n slots head l) : slots head = l.head? := by
  rw [h.slot_eq head h.head_lt, dist_self, List.head?_eq_getElem?]

theorem advance_eq (h : Holds n slots head l) {k : Nat} (hk : k < n)
    : slots (advance n head k) = l[k]? := by
  rw [h.slot_eq _ (advance_lt h.head_lt (by omega)), dist_advance h.head_lt hk]

theorem tail_eq_none (h : Holds n slots head l) (hlt : l.length < n)
    : slots (advance n head l.length) = none := by
  rw [h.advance_eq hlt]
  simp

theorem isSome_iff (h : Holds n slots head l) {i : Nat} (hi : i < n)
    : (slots i).isSome ↔ dist n head i < l.length := by
  rw [h.slot_eq i hi]
  simp

theorem append (h : Holds n slots head l) (hlt : l.length < n)
    : Holds n (Function.update slots (advance n head l.length) (some x)) head (l ++ [x]) where
  head_lt := h.head_lt
  length_le := by simp; omega
  slot_eq := by
    intro i hi
    by_cases htail : i = advance n head l.length
    . rw [htail, dist_advance h.head_lt hlt]
      simp
    . have hne : dist n head i ≠ l.length := by
        intro heq
        apply htail
        apply dist_inj h.head_lt hi (advance_lt h.head_lt (by omega))
        rw [heq, dist_advance h.head_lt hlt]
      rw [Function.update_of_ne htail, h.slot_eq i hi]
      cases Nat.lt_or_gt_of_ne hne with
      | inl hlt' => rw [List.getElem?_append_left hlt']
      | inr hgt =>
        rw [List.getElem?_eq_none (by omega), List.getElem?_eq_none (by simp; omega)]

theorem remove (h : Holds n slots head (x :: l))
    : Holds n (Function.update slots head none) (next n head) l where
  head_lt := next_lt h.head_lt
  length_le := by
    have := h.length_le
    simp at this
    omega
  slot_eq := by
    intro i hi
    have hlen : l.length + 1 ≤ n := by simpa using h.length_le
    by_cases hi' : i = head
    . rw [hi', dist_next_self h.head_lt, Function.update_self,
        List.getElem?_eq_none (by omega)]
    . rw [Function.update_of_ne hi', h.slot_eq i hi, dist_next h.head_lt hi hi']
      simp

end Holds

end Ring
