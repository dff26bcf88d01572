import Mathlib.Data.List.Basic

/-!
This module contains the bounded first-in first-out queue as an abstract data type. It remembers all
that was ever pushed and popped, and carries the proof that the order of the two is the same. `Placed`
are the groups that one of its producers pushed.
-/

structure Fifo (α : Type u) (n : Nat) where
  pushed : List α
  popped : List α
  queue : List α
  length_le : queue.length ≤ n
  order : pushed = popped ++ queue

namespace Fifo

variable {α : Type u} {n : Nat}

@[ext]
theorem ext {q q' : Fifo α n} (hpopped : q.popped = q'.popped) (hqueue : q.queue = q'.queue) : q = q' := by
  cases q with
  | mk pushed popped queue length_le order =>
    cases q' with
    | mk pushed' popped' queue' length_le' order' =>
      simp only at hpopped hqueue
      subst hpopped hqueue order order'
      rfl

def push (q : Fifo α n) (batch : List α) (h : q.queue.length + batch.length ≤ n) : Fifo α n where
  pushed := q.pushed ++ batch
  popped := q.popped
  queue := q.queue ++ batch
  length_le := by simpa using h
  order := by rw [q.order, List.append_assoc]

def pop (q : Fifo α n) (count : Nat) : Fifo α n where
  pushed := q.pushed
  popped := q.popped ++ q.queue.take count
  queue := q.queue.drop count
  length_le := by
    have := q.length_le
    simp
    omega
  order := by rw [q.order, List.append_assoc, List.take_append_drop]

inductive Step (q : Fifo α n) : Fifo α n → Prop where
  | stay : Step q q
  | push (batch : List α) (h : q.queue.length + batch.length ≤ n) : Step q (q.push batch h)
  | pop (count : Nat) : Step q (q.pop count)

end Fifo

inductive Placed {α : Type u} : List (List α) → List α → Prop where
  | nil : Placed [] []
  | skip (h : Placed groups list) (rest : List α) : Placed groups (list ++ rest)
  | place (h : Placed groups list) (group : List α) : Placed (groups ++ [group]) (list ++ group)

theorem Placed.sublist {groups : List (List α)} {list : List α} (h : Placed groups list)
    : groups.flatten.Sublist list := by
  induction h with
  | nil => exact List.Sublist.refl _
  | skip _ rest ih => exact ih.trans (List.sublist_append_left _ rest)
  | place _ group ih =>
    rw [List.flatten_append, List.flatten_singleton]
    exact ih.append (List.Sublist.refl group)
