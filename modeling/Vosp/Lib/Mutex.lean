import Mathlib.Logic.Function.Basic

/-!
This module contains the bookkeeping of mutual exclusion. `holds t l` is what the program point of
thread `t` says about lock `l`, `owner l` what the shared memory says. `Owned` relates the two.
-/

namespace Mutex

variable {τ l : Type} {holds holds' : τ → l → Bool} {owner : l → Option τ} {t u : τ} {a : l}

def Owned (holds : τ → l → Bool) (owner : l → Option τ) : Prop :=
  ∀ t a, holds t a = true ↔ owner a = some t

namespace Owned

theorem unique (h : Owned holds owner) (ht : holds t a = true) (hu : holds u a = true) : t = u := by
  rw [h] at ht hu
  rw [ht] at hu
  exact Option.some.inj hu

theorem not_holds (h : Owned holds owner) (hfree : owner a = none) (t : τ) : holds t a = false := by
  rw [← Bool.not_eq_true, h, hfree]
  simp

theorem not_holds_of_ne (h : Owned holds owner) (ht : holds t a = true) (hne : u ≠ t)
    : holds u a = false := by
  rw [← Bool.not_eq_true]
  intro hu
  exact hne (h.unique hu ht)

theorem none (hnone : ∀ t a, holds t a = false) : Owned holds (fun _ => none) := by
  intro t a
  simp [hnone]

theorem frame (h : Owned holds owner) (hall : ∀ t, holds' t = holds t) : Owned holds' owner := by
  intro t a
  rw [hall, h]

variable [DecidableEq l]

theorem lock (h : Owned holds owner) (hfree : owner a = .none)
    (ht : ∀ b, holds' t b = (holds t b || decide (b = a)))
    (hu : ∀ u, u ≠ t → holds' u = holds u)
    : Owned holds' (Function.update owner a (some t)) := by
  intro u b
  by_cases hb : b = a
  . subst hb
    rw [Function.update_self]
    by_cases hut : u = t
    . subst hut
      simp [ht]
    . rw [hu u hut, h.not_holds hfree]
      simp [Ne.symm hut]
  . rw [Function.update_of_ne hb]
    by_cases hut : u = t
    . subst hut
      simp [ht, hb, h u b]
    . rw [hu u hut, h]

theorem unlock (h : Owned holds owner) (hheld : holds t a = true)
    (ht : ∀ b, holds' t b = (holds t b && decide (b ≠ a)))
    (hu : ∀ u, u ≠ t → holds' u = holds u)
    : Owned holds' (Function.update owner a .none) := by
  intro u b
  by_cases hb : b = a
  . subst hb
    rw [Function.update_self]
    by_cases hut : u = t
    . subst hut
      simp [ht]
    . rw [hu u hut, h.not_holds_of_ne hheld hut]
      simp
  . rw [Function.update_of_ne hb]
    by_cases hut : u = t
    . subst hut
      simp [ht, hb, h u b]
    . rw [hu u hut, h]

end Owned

end Mutex
