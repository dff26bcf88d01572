import Mathlib.Logic.Function.Basic

/-!
This module contains labelled transition systems with an executable step function: `step s e` is the
state after the event `e`, or `none` if `e` cannot happen in `s`. All choices of the environment are
part of the event. `ReachableVia ok` are the states of the runs in which every event meets the
condition `ok` in the state it happens in, `Reachable` the states of all runs.
-/

structure System (σ : Type u) (ε : Type v) where
  init : σ
  step : σ → ε → Option σ

namespace System

variable (M : System σ ε)

inductive ReachableVia (ok : σ → ε → Prop) : σ → Prop where
  | init : ReachableVia ok M.init
  | step {s s' : σ} {e : ε} (hs : ReachableVia ok s) (hok : ok s e) (hstep : M.step s e = some s')
    : ReachableVia ok s'

abbrev Reachable (s : σ) : Prop := M.ReachableVia (fun _ _ => True) s

def run (s : σ) (events : List ε) : Option σ :=
  match events with
  | [] => some s
  | e :: es =>
    match M.step s e with
    | some s' => run s' es
    | none => none

variable {M}

theorem ReachableVia.mono {ok ok' : σ → ε → Prop} (h : ∀ s e, ok s e → ok' s e)
    (hs : M.ReachableVia ok s)
    : M.ReachableVia ok' s := by
  induction hs with
  | init => exact .init
  | step _ hok hstep ih => exact .step ih (h _ _ hok) hstep

theorem ReachableVia.reachable {ok : σ → ε → Prop} (hs : M.ReachableVia ok s) : M.Reachable s :=
  hs.mono (fun _ _ _ => trivial)

theorem ReachableVia.invariant {ok : σ → ε → Prop} {I : σ → Prop} (hinit : I M.init)
    (hstep : ∀ s e s', M.ReachableVia ok s → I s → ok s e → M.step s e = some s' → I s')
    (hs : M.ReachableVia ok s)
    : I s := by
  induction hs with
  | init => exact hinit
  | step hs hok hst ih => exact hstep _ _ _ hs ih hok hst

theorem Reachable.next {s s' : σ} {e : ε} (hs : M.Reachable s) (h : M.step s e = some s')
    : M.Reachable s' :=
  .step hs trivial h

@[simp]
theorem run_nil (s : σ) : M.run s [] = some s := by
  rfl

theorem run_cons (s : σ) (e : ε) (es : List ε)
    : M.run s (e :: es) = (M.step s e).bind (M.run · es) := by
  rw [run]
  cases M.step s e with
  | none => rfl
  | some s' => rfl

theorem Reachable.run {s s' : σ} (hs : M.Reachable s) (es : List ε) (h : M.run s es = some s')
    : M.Reachable s' := by
  induction es generalizing s with
  | nil =>
    rw [run_nil] at h
    cases h
    exact hs
  | cons e es ih =>
    rw [run_cons] at h
    cases hst : M.step s e with
    | none => simp [hst] at h
    | some s'' =>
      rw [hst] at h
      exact ih (hs.next hst) h

theorem Reachable.run_invariant {I : σ → Prop}
    (hstep : ∀ s e s', M.Reachable s → I s → M.step s e = some s' → I s') {s s' : σ} (hs : M.Reachable s)
    (hI : I s) (es : List ε) (h : M.run s es = some s')
    : I s' := by
  induction es generalizing s with
  | nil =>
    rw [run_nil] at h
    cases h
    exact hI
  | cons e es ih =>
    rw [run_cons] at h
    cases hst : M.step s e with
    | none => simp [hst] at h
    | some s'' =>
      rw [hst] at h
      exact ih (hs.next hst) (hstep _ _ _ hs hI hst) h

theorem exists_of_run {p : σ → Bool} (es : List ε) (h : (M.run M.init es).map p = some true)
    : ∃ s, M.Reachable s ∧ p s = true := by
  rw [Option.map_eq_some_iff] at h
  obtain ⟨s, hrun, hp⟩ := h
  have hinit : M.Reachable M.init := .init
  exact ⟨s, hinit.run es hrun, hp⟩

def recording (M : System σ ε) (observe : σ → ε → List β) : System (σ × List β) ε where
  init := (M.init, [])
  step s e := (M.step s.1 e).map fun s' => (s', s.2 ++ observe s.1 e)

theorem Reachable.of_recording {observe : σ → ε → List β} {s : σ × List β}
    (hs : (M.recording observe).Reachable s)
    : M.Reachable s.1 := by
  induction hs with
  | init => exact .init
  | step _ _ hstep ih =>
    obtain ⟨s', hs', rfl⟩ := Option.map_eq_some_iff.mp hstep
    exact ih.next hs'

theorem Reachable.recording_invariant {observe : σ → ε → List β} {I : σ → List β → Prop}
    (hinit : I M.init [])
    (hstep : ∀ s log e s', M.Reachable s → I s log → M.step s e = some s' → I s' (log ++ observe s e))
    {s : σ × List β} (hs : (M.recording observe).Reachable s)
    : I s.1 s.2 := by
  induction hs with
  | init => exact hinit
  | step hs _ hst ih =>
    obtain ⟨s', hs', rfl⟩ := Option.map_eq_some_iff.mp hst
    exact hstep _ _ _ _ (Reachable.of_recording hs) ih hs'

/--
The runs in which every event meets the condition `ok`, which can be evaluated.
-/
def restrict (M : System σ ε) (ok : σ → ε → Bool) : System σ ε where
  init := M.init
  step s e := if ok s e then M.step s e else none

theorem Reachable.of_restrict {ok : σ → ε → Bool} (hs : (M.restrict ok).Reachable s)
    : M.ReachableVia (fun s e => ok s e = true) s := by
  induction hs with
  | init => exact .init
  | step _ _ hstep ih =>
    simp only [restrict] at hstep
    split at hstep
    . next hok => exact .step ih hok hstep
    . cases hstep

theorem exists_via_of_run {ok : σ → ε → Bool} {p : σ → Bool} (es : List ε)
    (h : ((M.restrict ok).run M.init es).map p = some true)
    : ∃ s, M.ReachableVia (fun s e => ok s e = true) s ∧ p s = true := by
  obtain ⟨s, hs, hp⟩ := @exists_of_run _ _ (M.restrict ok) p es h
  exact ⟨s, hs.of_restrict, hp⟩

end System
