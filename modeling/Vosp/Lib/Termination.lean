import Mathlib.Data.DFinsupp.WellFounded
import Vosp.Lib.System

/-!
This module contains the runs of a system in which only the events of one kind happen, such as the steps of
threads that nobody gives new work. A state terminates if all these runs from it are finite, and it is halted
if none of these events can happen in it.
-/

namespace System

variable {σ ε κ R : Type} (M : System σ ε) (goes : ε → Bool)

def Goes (s' s : σ) : Prop := ∃ e, goes e = true ∧ M.step s e = some s'

def Halted (s : σ) : Prop := ∀ e, goes e = true → M.step s e = none

def Terminates (s : σ) : Prop := Acc (M.Goes goes) s

variable {M goes}

theorem terminates_of_rank [Preorder R] [WellFoundedLT R] {I : σ → Prop} (rank : σ → κ → R) (F : Finset κ)
    (hstep : ∀ s e s', I s → goes e = true → M.step s e = some s' →
      I s' ∧ ∃ k ∈ F, rank s' k < rank s k ∧ ∀ j, j ≠ k → rank s' j ≤ rank s j)
    {s : σ} (hs : I s)
    : M.Terminates goes s := by
  generalize hr : (fun k : F => rank s k) = r
  induction r using WellFoundedLT.induction generalizing s with
  | ind r ih =>
    constructor
    rintro s' ⟨e, hgoes, hs'⟩
    obtain ⟨hI, k, hk, hlt, hle⟩ := hstep s e s' hs hgoes hs'
    apply ih (fun k : F => rank s' k) _ hI rfl
    rw [← hr, Pi.lt_def]
    refine ⟨?_, ⟨k, hk⟩, hlt⟩
    intro j
    show rank s' j ≤ rank s j
    by_cases hj : (j : κ) = k
    . rw [hj]
      exact le_of_lt hlt
    . exact hle j hj

theorem Reachable.exists_finset [DecidableEq κ] {A : σ → κ → Prop} (subject : ε → κ)
    (hinit : ∀ k, ¬A M.init k)
    (hstep : ∀ s e s', M.step s e = some s' → ∀ k, k ≠ subject e → A s' k → A s k)
    {s : σ} (hs : M.Reachable s)
    : ∃ F : Finset κ, ∀ k, A s k → k ∈ F := by
  induction hs with
  | init => exact ⟨∅, fun k hk => absurd hk (hinit k)⟩
  | @step s s' e _ _ hst ih =>
    obtain ⟨F, hF⟩ := ih
    refine ⟨insert (subject e) F, ?_⟩
    intro k hk
    by_cases hke : k = subject e
    . exact Finset.mem_insert.mpr (.inl hke)
    . exact Finset.mem_insert_of_mem (hF k (hstep s e s' hst k hke hk))

end System
