import Vosp.Lib.Termination
import Vosp.Pool.Deadlock

/-!
This module says how a pool comes to rest after a shutdown: all workers have exited, all calls have returned and
every task is settled, unless a task waits for its own pool to become idle.
-/

namespace Vosp.Pool

variable {cfg : Config} {C : Type}

def Event.advances (event : Event cfg C) : Bool :=
  match event with
  | .step _ (.call _) | .spurious _ => false
  | .step _ _ => true

inductive Code.Waits (t : Thread cfg C) (m : Memory cfg C) : Code cfg C κ → Prop where
  | await : Waits t m (.await k)
  | halt : Waits t m .halt
  | blocked (hwants : Code.wants code = some r) (hheld : m.holder r ≠ none) : Waits t m code
  | asleep (hasleep : m.stateSleeper t = true) : Waits t m (.wait observed asleep k)
  | epochAsleep (hasleep : m.epochSleeper t = true) : Waits t m (.waitEpoch epoch asleep k)

theorem Code.waits_of_halted {κ : Type} [Fintype C] [DecidableEq C] {t : Thread cfg C} {m : Memory cfg C}
    {code : Code cfg C κ}
    (h : ∀ choice, (∀ request, choice ≠ .call request) → code.exec t m choice = none)
    : code.Waits t m := by
  have hgo := h .go (fun request heq => by cases heq)
  cases code <;> simp only [exec] at hgo
  case await => exact .await
  case halt => exact .halt
  case body => cases h (.ret (.exception 0)) (fun request heq => by cases heq)
  case lock mutex k =>
    split at hgo
    . cases hgo
    . next hheld => exact .blocked (r := .mutex mutex) rfl hheld
  case join index k =>
    split at hgo
    . cases hgo
    . next hrunning =>
      refine .blocked (r := .termination index) rfl ?_
      rw [Memory.holder, if_neg hrunning]
      exact Option.some_ne_none _
  case wait =>
    split at hgo
    . next hasleep => exact .asleep hasleep
    . split at hgo <;> cases hgo
  case waitEpoch =>
    split at hgo
    . next hasleep => exact .epochAsleep hasleep
    . split at hgo <;> cases hgo
  case notifyOne =>
    split at hgo
    . cases hgo
    . next hsome =>
      simp only [not_forall, Bool.not_eq_false] at hsome
      obtain ⟨sleeper, hasleep⟩ := hsome
      have hunblock := h (.unblock sleeper) (fun request heq => by cases heq)
      simp only [exec, hasleep, ↓reduceIte] at hunblock
      cases hunblock
  case tryLock | peek | take | complete => split at hgo <;> cases hgo
  case cancelHead =>
    split at hgo
    . split at hgo <;> cases hgo
    . cases hgo
  all_goals cases hgo

inductive Pc.Stays (t : Thread cfg C) (m : Memory cfg C) : Pc cfg → Prop where
  | resting (last : Option Result) : Stays t m (.resting none last)
  | exited : Stays t m .exited
  | blocked (hwants : pc.wants C = some r) (hheld : m.holder r ≠ none) : Stays t m pc
  | asleep (hasleep : m.stateSleeper t = true) : Stays t m pc
  | epochWait (c : Context) (epoch : Nat) (hasleep : m.epochSleeper t = true) : Stays t m (.epochWait c epoch)

def Code.pauses (code : Code cfg C κ) : Bool :=
  match code with
  | .await _ | .halt | .waitEpoch .. => true
  | _ => false

theorem Pc.pauses_cases {pc : Pc cfg} (h : (pc.code : Code cfg C (Pc cfg)).pauses = true)
    : (∃ last, pc = .resting none last) ∨ pc = .exited ∨ ∃ c epoch, pc = .epochWait c epoch := by
  cases pc
  case resting c last =>
    cases c with
    | none => exact .inl ⟨last, rfl⟩
    | some f => cases h
  case exited => exact .inr (.inl rfl)
  case epochWait c epoch => exact .inr (.inr ⟨c, epoch, rfl⟩)
  case slotWrite group => cases group <;> cases h
  case cancelSlot remaining => cases remaining <;> cases h
  case workersStop rest => cases rest <;> cases h
  case join rest => cases rest <;> cases h
  case workersNotify =>
    simp only [code] at h
    split at h <;> cases h
  all_goals cases h

theorem Pc.stays {t : Thread cfg C} {m : Memory cfg C} {pc : Pc cfg}
    (h : (pc.code : Code cfg C (Pc cfg)).Waits t m)
    : pc.Stays t m := by
  have hpauses := @pauses_cases _ C pc
  generalize hcode : (pc.code : Code cfg C (Pc cfg)) = code at h hpauses
  cases h with
  | blocked hwants hheld =>
    subst hcode
    exact .blocked hwants hheld
  | asleep hasleep => exact .asleep hasleep
  | await =>
    rcases hpauses rfl with ⟨last, rfl⟩ | rfl | ⟨c, epoch, rfl⟩
    . exact .resting last
    all_goals cases hcode
  | halt =>
    rcases hpauses rfl with ⟨last, rfl⟩ | rfl | ⟨c, epoch, rfl⟩
    . cases hcode
    . exact .exited
    . cases hcode
  | epochAsleep hasleep =>
    rcases hpauses rfl with ⟨last, rfl⟩ | rfl | ⟨c, epoch, rfl⟩
    . cases hcode
    . cases hcode
    . exact .epochWait c epoch hasleep

theorem Edge.exit_of_exited {t : Thread cfg C} {m : Memory cfg C} {pc : Pc cfg} {op : Op cfg}
    (h : Edge t m pc op .exited)
    : op = .exit := by
  cases h
  rfl

variable [Fintype C] [DecidableEq C]

namespace State

variable {s : State cfg C} {t : Thread cfg C}

theorem exited_of_pc (hs : (system cfg C).Reachable s) : ∀ t, s.pc t = .exited → s.memory.exited t = true := by
  apply reachable_induction _ _ _ hs
  . rintro (_ | _) h <;> cases h
  . intro s t choice op pc' m' _ h hedge heffect
    apply forall_update (fun u pc => pc = .exited → m'.exited u = true)
    . rintro rfl
      obtain rfl := hedge.exit_of_exited
      cases heffect
      exact Function.update_self _ _ _
    . exact fun u _ hu => heffect.exited_mono (h u hu)
  . exact fun s t _ h => h

def Hung (s : State cfg C) (i : Fin cfg.workerCount) : Prop :=
  ∃ c epoch, s.pc (.worker i) = .epochWait c epoch ∧ s.memory.epochSleeper (.worker i) = true

structure AtRest (s : State cfg C) : Prop where
  exited : ∀ i, s.pc (.worker i) = .exited
  returned : ∀ name, ∃ last, s.pc (.client name) = .resting none last
  settled : ∀ item ∈ s.memory.history.accepted, s.At item .executed ∨ s.At item .cancelled

theorem stays_of_halted (hhalted : (system cfg C).Halted Event.advances s) (t : Thread cfg C)
    : (s.pc t).Stays t s.memory := by
  apply Pc.stays
  apply Code.waits_of_halted
  intro choice hchoice
  have hadvances : (Event.step t choice).advances = true := by
    cases choice
    case call request => exact absurd rfl (hchoice request)
    all_goals rfl
  exact Option.map_eq_none_iff.mp (hhalted _ hadvances)

theorem hung_of_blocked (hs : (system cfg C).Reachable s) (hawake : ∀ u, s.memory.stateSleeper u = false)
    (hhalted : (system cfg C).Halted Event.advances s) {r : Resource cfg} (hwants : s.wants t = some r)
    (hheld : s.memory.holder r ≠ none)
    : ∃ i, s.Hung i := by
  obtain ⟨u, hpath, hfree⟩ := (ranked hs).exists_unblocked t
  cases hpath.cases_tail with
  | inl heq =>
    subst heq
    exact absurd (hfree r hwants) hheld
  | inr hlast =>
    obtain ⟨v, _, r', _, hholder⟩ := hlast
    have hstays := stays_of_halted hhalted u
    cases r' with
    | mutex mutex =>
      have hholds : (s.pc u).holds mutex = true := (locked hs u mutex).mpr hholder
      generalize hpc : s.pc u = pc at hstays hholds
      cases hstays with
      | resting | exited | epochWait => cases mutex <;> cases hholds
      | blocked hwants' hheld' =>
        rw [← hpc] at hwants'
        exact absurd (hfree _ hwants') hheld'
      | asleep hasleep =>
        rw [hawake u] at hasleep
        cases hasleep
    | termination index =>
      simp only [Memory.holder] at hholder
      split at hholder
      . cases hholder
      . next hrunning =>
        cases hholder
        have hkind := (counted hs).kind (.worker index)
        generalize hpc : s.pc (.worker index) = pc at hstays hkind
        cases hstays with
        | resting => cases hkind
        | exited => exact absurd (exited_of_pc hs _ hpc) hrunning
        | blocked hwants' hheld' =>
          rw [← hpc] at hwants'
          exact absurd (hfree _ hwants') hheld'
        | asleep hasleep =>
          rw [hawake] at hasleep
          cases hasleep
        | epochWait c epoch hasleep => exact ⟨index, c, epoch, hpc, hasleep⟩

theorem epochAwake_of_exited (hs : (system cfg C).Reachable s) (hidle : s.Idle)
    (hquiet : ∀ u, (s.pc u).announces = false ∧ (s.pc u).notifiesEpoch = false) (t : Thread cfg C)
    : s.memory.epochSleeper t = false := by
  rw [← Bool.not_eq_true]
  intro hasleep
  have h := announced hs
  obtain ⟨epoch, hepoch⟩ := epochWait_of_asleep hs t hasleep
  by_cases heq : epoch = s.memory.completionEpoch
  . subst heq
    rcases h.announced t hepoch with hbusy | ⟨u, hu⟩
    . exact hbusy (unfinished_of_idle hs hidle)
    . rw [(hquiet u).1] at hu
      cases hu
  . obtain ⟨u, hu⟩ := h.notified t epoch hasleep hepoch heq
    rw [(hquiet u).2] at hu
    cases hu

theorem atRest_of_halted (hs : (system cfg C).Reachable s) (hawake : ∀ u, s.memory.stateSleeper u = false)
    (hhalted : (system cfg C).Halted Event.advances s) (hnone : ∀ i, ¬s.Hung i)
    : s.AtRest := by
  have hcases : ∀ t, (∃ last, s.pc t = .resting none last) ∨ s.pc t = .exited ∨
      ∃ c epoch, s.pc t = .epochWait c epoch ∧ s.memory.epochSleeper t = true := by
    intro t
    have hstays := stays_of_halted hhalted t
    generalize hpc : s.pc t = pc at hstays
    cases hstays with
    | resting last => exact .inl ⟨last, rfl⟩
    | exited => exact .inr (.inl rfl)
    | epochWait c epoch hasleep => exact .inr (.inr ⟨c, epoch, rfl, hasleep⟩)
    | blocked hwants hheld =>
      rw [← hpc] at hwants
      obtain ⟨i, hi⟩ := hung_of_blocked hs hawake hhalted hwants hheld
      exact absurd hi (hnone i)
    | asleep hasleep =>
      rw [hawake t] at hasleep
      cases hasleep
  have hexited : ∀ i, s.pc (.worker i) = .exited := by
    intro i
    have hkind := (counted hs).kind (.worker i)
    rcases hcases (.worker i) with ⟨last, hpc⟩ | hpc | hhung
    . rw [hpc] at hkind
      cases hkind
    . exact hpc
    . exact absurd hhung (hnone i)
  have hfinished := finished hs fun i => exited_of_pc hs _ (hexited i)
  have hawakeEpoch := epochAwake_of_exited hs hfinished.idle (by
    intro u
    rcases hcases u with ⟨last, hpc⟩ | hpc | ⟨c, epoch, hpc, -⟩
    all_goals
      rw [hpc]
      exact ⟨rfl, rfl⟩)
  refine ⟨hexited, ?_, hfinished.settled⟩
  intro name
  rcases hcases (.client name) with hrest | hpc | ⟨c, epoch, -, hasleep⟩
  . exact hrest
  . have hkind := (counted hs).kind (.client name)
    rw [hpc] at hkind
    cases hkind
  . rw [hawakeEpoch] at hasleep
    cases hasleep

theorem AtRest.halted (h : s.AtRest) : (system cfg C).Halted Event.advances s := by
  intro event hadvances
  cases event with
  | spurious t => cases hadvances
  | step t choice =>
    have hnone : s.step (.step t choice) = none := by
      cases t with
      | worker i =>
        simp only [step, h.exited i, Pc.code]
        cases choice <;> rfl
      | client name =>
        obtain ⟨last, hlast⟩ := h.returned name
        simp only [step, hlast, Pc.code]
        cases choice
        case call => cases hadvances
        all_goals rfl
    exact hnone

theorem atRest_or_hung (hs : (system cfg C).Reachable s) (hsignalled : s.memory.history.signalled ≠ [])
    (hhalted : (system cfg C).Halted Event.advances s)
    : s.AtRest ∨ ∃ i, s.Hung i := by
  by_cases hhung : ∃ i, s.Hung i
  . exact .inr hhung
  . refine .inl (atRest_of_halted hs (awake_of_signalled hs hsignalled) hhalted ?_)
    exact not_exists.mp hhung

structure WindsDown (s : State cfg C) : Prop where
  halted : (system cfg C).Halted Event.advances s → s.AtRest ∨ ∃ i, s.Hung i
  atRest : s.AtRest → (system cfg C).Halted Event.advances s

end State

theorem pool_winds_down {s : State cfg C} (hs : (system cfg C).Reachable s)
    (hsignalled : s.memory.history.signalled ≠ [])
    : s.WindsDown :=
  ⟨State.atRest_or_hung hs hsignalled, State.AtRest.halted⟩

theorem pool_winds_down_tiny
    : ∃ s : State tinyConfig Unit, s.memory.epochSleeper (.worker (0 : Fin 1)) = true ∧
        s.wants (.client ()) = some (.termination (0 : Fin 1)) ∧ s.WindsDown := by
  have hrun : ((system tinyConfig Unit).run State.init
      (.step (.client ()) (.call .dispatch) :: Event.goes (.client ()) 8 ++
        Event.goes (.worker (0 : Fin 1)) 9 ++ .step (.worker (0 : Fin 1)) (.call .wait) ::
        Event.goes (.worker (0 : Fin 1)) 5 ++ .step (.client ()) (.call (.shutdown .drain)) ::
        Event.goes (.client ()) 9)).map
      (fun s => s.memory.epochSleeper (.worker (0 : Fin 1)) &&
        decide (s.wants (.client ()) = some (.termination (0 : Fin 1))) &&
        decide (s.memory.history.signalled ≠ [])) = some true := by
    decide +kernel
  obtain ⟨s, hs, hp⟩ := System.exists_of_run _ hrun
  simp only [Bool.and_eq_true, decide_eq_true_eq] at hp
  obtain ⟨⟨hasleep, hwants⟩, hsignalled⟩ := hp
  exact ⟨s, hasleep, hwants, pool_winds_down hs hsignalled⟩

end Vosp.Pool
