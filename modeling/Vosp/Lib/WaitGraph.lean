import Mathlib.Logic.Relation

/-!
This module contains the waits-for relation of blocking threads. A thread that blocks wants a resource,
which another thread may hold: a mutex until its owner unlocks it, the termination of a thread until
that thread ends. Without a cycle some thread can always go on, so a cycle is what a deadlock is.
-/

namespace WaitGraph

variable {τ ρ : Type} {wants : τ → Option ρ} {holder : ρ → Option τ}

def Waits (wants : τ → Option ρ) (holder : ρ → Option τ) (t u : τ) : Prop :=
  ∃ r, wants t = some r ∧ holder r = some u

def Acyclic (waits : τ → τ → Prop) : Prop := ∀ t, ¬ Relation.TransGen waits t t

def Ranked (level : ρ → Nat) (wants : τ → Option ρ) (holder : ρ → Option τ) : Prop :=
  ∀ u r r', holder r = some u → wants u = some r' → level r' < level r

theorem wants_of_transGen {t u : τ} (h : Relation.TransGen (Waits wants holder) t u)
    : ∃ r, wants t = some r := by
  induction h with
  | single hwaits =>
    obtain ⟨r, hr, _⟩ := hwaits
    exact ⟨r, hr⟩
  | tail _ _ ih => exact ih

theorem Ranked.level_lt {level : ρ → Nat} (h : Ranked level wants holder) {t u : τ}
    (hpath : Relation.TransGen (Waits wants holder) t u) {r r' : ρ} (ht : wants t = some r)
    (hu : wants u = some r')
    : level r' < level r := by
  induction hpath generalizing r' with
  | single hwaits =>
    obtain ⟨r₁, ht', hholder⟩ := hwaits
    rw [ht] at ht'
    cases ht'
    exact h _ _ _ hholder hu
  | tail _ hwaits ih =>
    obtain ⟨r₁, hb, hholder⟩ := hwaits
    exact Nat.lt_trans (h _ _ _ hholder hu) (ih hb)

theorem Ranked.acyclic {level : ρ → Nat} (h : Ranked level wants holder)
    : Acyclic (Waits wants holder) := by
  intro t hcycle
  obtain ⟨r, hr⟩ := wants_of_transGen hcycle
  exact absurd (h.level_lt hcycle hr hr) (Nat.lt_irrefl _)

theorem Ranked.exists_unblocked {level : ρ → Nat} (h : Ranked level wants holder) (t : τ)
    : ∃ u, Relation.ReflTransGen (Waits wants holder) t u ∧ ∀ r, wants u = some r → holder r = none := by
  have hlevel : ∀ n t, (∀ r, wants t = some r → level r < n) →
      ∃ u, Relation.ReflTransGen (Waits wants holder) t u ∧ ∀ r, wants u = some r → holder r = none := by
    intro n
    induction n with
    | zero =>
      intro t ht
      exact ⟨t, .refl, fun r hr => absurd (ht r hr) (Nat.not_lt_zero _)⟩
    | succ n ih =>
      intro t ht
      by_cases hblocked : ∃ r v, wants t = some r ∧ holder r = some v
      . obtain ⟨r, v, hr, hv⟩ := hblocked
        have hlt : ∀ r', wants v = some r' → level r' < n := by
          intro r' hr'
          exact Nat.lt_of_lt_of_le (h v r r' hv hr') (Nat.le_of_lt_succ (ht r hr))
        obtain ⟨u, hu, hfree⟩ := ih v hlt
        exact ⟨u, .head ⟨r, hr, hv⟩ hu, hfree⟩
      . refine ⟨t, .refl, ?_⟩
        intro r hr
        cases hholder : holder r with
        | none => rfl
        | some v => exact absurd ⟨r, v, hr, hholder⟩ hblocked
  cases hw : wants t with
  | none => exact ⟨t, .refl, by simp [hw]⟩
  | some r =>
    apply hlevel (level r + 1) t
    intro r' hr'
    rw [hw] at hr'
    cases hr'
    exact Nat.lt_succ_self _

end WaitGraph
