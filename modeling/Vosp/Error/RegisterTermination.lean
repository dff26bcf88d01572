import Vosp.Error.SharedRegisters
import Vosp.Lib.Termination
import Vosp.Lib.WaitGraph

/-!
This module says that every operation on shared registers returns: a call waits for the mutex of a position before
that of a register, and every step brings it nearer to its end.
-/

namespace Vosp

namespace SharedRegisters

variable {τ ι κ : Type}

def Event.advances (event : Event τ ι κ) : Bool :=
  match event with
  | .call _ _ => false
  | .step _ => true

def Event.subject (event : Event τ ι κ) : τ :=
  match event with
  | .call name _ | .step name => name

def Lock.level (lock : Lock ι κ) : Nat :=
  match lock with
  | .register _ => 0
  | .position _ _ => 1

def Pc.active (pc : Pc ι κ) : Bool :=
  match pc with
  | .idle | .returned _ _ => false
  | _ => true

def Pc.wants (setup : Setup ι κ) (pc : Pc ι κ) : Option (Lock ι κ) :=
  match pc with
  | .positionLock k _ index _ => some (.position k index)
  | .lock access => if setup.threadSafe access.register then some (.register access.register) else none
  | _ => none

def Pc.rank (setup : Setup ι κ) (pc : Pc ι κ) : Nat :=
  match pc with
  | .idle | .returned _ _ => 0
  | .ret _ _ => 1
  | .positionUnlock .. => 2
  | .unlock _ _ => 3
  | .write .. => 4
  | .read _ => 5
  | .lock _ => 6
  | .positionLock .. | .validate _ _ => 7
  | .route k _ index => 8 + ((setup.handlers k).registers.length - index)

variable {setup : Setup ι κ} {pc pc' : Pc ι κ}

theorem Access.rank_next_le (access : Access ι κ) (answer : Register.Answer)
    : (access.next answer).rank setup ≤ 2 := by
  unfold next
  split
  . exact Nat.le_succ 1
  . exact Nat.le_refl 2

variable [DecidableEq τ] [DecidableEq ι] [DecidableEq κ] {call : τ} {m m' : Memory τ ι κ}

theorem Edge.rank_lt (h : Edge setup call m pc m' pc') : pc'.rank setup < pc.rank setup := by
  cases h
  case skip k command index i hi hne =>
    have hlt := (List.getElem?_eq_some_iff.mp hi).1
    simp only [Pc.rank]
    omega
  case position | route | missing =>
    simp only [Pc.rank]
    omega
  case unlock access answer _ | unlockNothing access answer _ =>
    exact Nat.lt_succ_of_le (access.rank_next_le answer)
  all_goals
    simp only [Pc.rank]
    decide

theorem Edge.active (h : Edge setup call m pc m' pc') : pc.active = true := by
  cases h <;> rfl

theorem Pc.can_step (call : τ) (m : Memory τ ι κ) (hactive : pc.active = true)
    (hfree : ∀ lock, pc.wants setup = some lock → m.owner lock = none)
    : ∃ next, pc.step setup m call = some next := by
  cases pc
  case idle | returned => cases hactive
  case positionLock k command index i =>
    simp only [step, Memory.acquire, hfree (.position k index) rfl, ↓reduceIte, Option.map_some]
    exact ⟨_, rfl⟩
  case lock access =>
    simp only [step]
    split
    . next hsafe =>
      simp only [Memory.acquire, hfree (.register access.register) (if_pos hsafe), ↓reduceIte, Option.map_some]
      exact ⟨_, rfl⟩
    . exact ⟨_, rfl⟩
  case validate | read =>
    simp only [step]
    split <;> exact ⟨_, rfl⟩
  case route k command index =>
    simp only [step]
    split
    . exact ⟨_, rfl⟩
    . split
      . exact ⟨_, rfl⟩
      . split <;> exact ⟨_, rfl⟩
  all_goals exact ⟨_, rfl⟩

theorem Pc.active_of_holds {lock : Lock ι κ} (h : pc.holds setup lock = true) : pc.active = true := by
  cases pc
  case idle | returned => cases h
  all_goals rfl

theorem Pc.level_lt {held wanted : Lock ι κ} (hholds : pc.holds setup held = true)
    (hwants : pc.wants setup = some wanted)
    : wanted.level < held.level := by
  cases pc
  case positionLock => cases hholds
  case lock access =>
    cases held with
    | register i => cases hholds
    | position k index =>
      simp only [wants] at hwants
      split at hwants
      . cases hwants
        exact Nat.one_pos
      . cases hwants
  all_goals cases hwants

namespace State

variable {s s' : State τ ι κ} {event : Event τ ι κ} {store : ι → Stored}

def wants (setup : Setup ι κ) (s : State τ ι κ) (call : τ) : Option (Lock ι κ) := (s.pc call).wants setup

omit [DecidableEq τ] in
theorem Owned.ranked (h : s.Owned setup) : WaitGraph.Ranked Lock.level (s.wants setup) s.memory.owner := by
  intro call held wanted hholder hwants
  exact Pc.level_lt ((h call held).mpr hholder) hwants

theorem step_of_ne (h : Step setup s event s') {other : τ} (hne : other ≠ event.subject)
    : s'.pc other = s.pc other := by
  cases h with
  | start | step => exact pc_of_ne hne

theorem owned (hs : (system setup store).Reachable s) : s.Owned setup :=
  hs.invariant (I := fun s => s.Owned setup) (Mutex.Owned.none fun _ _ => rfl)
    fun _ _ _ _ h _ hstep => h.step (step_cases hstep)

theorem terminates (hs : (system setup store).Reachable s) : (system setup store).Terminates Event.advances s := by
  obtain ⟨F, hF⟩ := hs.exists_finset (A := fun s call => (s.pc call).active = true) Event.subject
    (fun _ => Bool.false_ne_true) (fun s event s' hstep call hne hactive => by
      rw [step_of_ne (step_cases hstep) hne] at hactive
      exact hactive)
  apply System.terminates_of_rank (I := fun s => ∀ call, (s.pc call).active = true → call ∈ F)
    (fun s call => (s.pc call).rank setup) F _ hF
  intro s event s' hbusy hadvances hstep
  have hcases := step_cases hstep
  cases hcases with
  | start => cases hadvances
  | @step call m pc hedge =>
    have hcall := hbusy call hedge.active
    constructor
    . intro other hactive
      by_cases hother : other = call
      . rw [hother]
        exact hcall
      . rw [pc_of_ne hother] at hactive
        exact hbusy other hactive
    . refine ⟨call, hcall, ?_, ?_⟩
      . rw [pc_self]
        exact hedge.rank_lt
      . intro other hother
        rw [pc_of_ne hother]

structure Returns (setup : Setup ι κ) (store : ι → Stored) (s : State τ ι κ) : Prop where
  terminates : (system setup store).Terminates Event.advances s
  halted : (system setup store).Halted Event.advances s ↔ ∀ call, (s.pc call).active = false
  unlocked : (∀ call, (s.pc call).active = false) → ∀ lock, s.memory.owner lock = none

theorem idle_of_halted (h : s.Owned setup) (hhalted : (system setup store).Halted Event.advances s) (call : τ)
    : (s.pc call).active = false := by
  rw [← Bool.not_eq_true]
  intro hactive
  obtain ⟨other, hpath, hfree⟩ := h.ranked.exists_unblocked call
  have hother : (s.pc other).active = true := by
    cases hpath.cases_tail with
    | inl heq =>
      rw [heq]
      exact hactive
    | inr hlast =>
      obtain ⟨_, _, lock, _, howner⟩ := hlast
      exact Pc.active_of_holds ((h other lock).mpr howner)
  obtain ⟨next, hnext⟩ := Pc.can_step other s.memory hother hfree
  have hnone : s.step setup (.step other) = none := hhalted (.step other) rfl
  simp only [step, hnext] at hnone
  cases hnone

end State

end SharedRegisters

open SharedRegisters

theorem shared_registers_calls_return {τ ι κ : Type} [DecidableEq τ] [DecidableEq ι] [DecidableEq κ]
    {setup : Setup ι κ} {store : ι → Stored} {s : SharedRegisters.State τ ι κ}
    (hs : (SharedRegisters.system setup store).Reachable s)
    : s.Returns setup store := by
  have howned := State.owned hs
  constructor
  case terminates => exact State.terminates hs
  case halted =>
    constructor
    . exact fun hhalted => State.idle_of_halted howned hhalted
    . intro hidle event hadvances
      cases event with
      | call => cases hadvances
      | step call =>
        have hcall := hidle call
        have hstep : s.step setup (.step call) = none := by
          simp only [State.step]
          generalize s.pc call = pc at hcall
          cases pc
          case idle | returned => rfl
          all_goals cases hcall
        exact hstep
  case unlocked =>
    intro hidle lock
    cases howner : s.memory.owner lock with
    | none => rfl
    | some call =>
      have hactive := Pc.active_of_holds ((howned call lock).mpr howner)
      rw [hidle call] at hactive
      cases hactive

theorem shared_registers_calls_return_blocked
    : ∃ s : SharedRegisters.State Nat Nat Unit, s.wants sharedSetup 2 = some (.register 0) ∧
        s.memory.owner (.register 0) = some 1 ∧ s.Returns sharedSetup sharedStore := by
  have hrun : ((SharedRegisters.system sharedSetup sharedStore).run (State.init sharedStore)
      (.call 1 (.register 0 .clear) :: List.replicate 2 (.step 1) ++
        .call 2 (.handler () ⟨.remove, ⟨.network, 1000, []⟩⟩) :: List.replicate 2 (.step 2))).map
      (fun s : SharedRegisters.State Nat Nat Unit => decide (s.wants sharedSetup 2 = some (.register 0)) &&
        decide (s.memory.owner (.register 0) = some 1)) = some true := by
    decide +kernel
  obtain ⟨s, hs, hp⟩ := System.exists_of_run _ hrun
  simp only [Bool.and_eq_true, decide_eq_true_eq] at hp
  exact ⟨s, hp.1, hp.2, shared_registers_calls_return hs⟩

end Vosp
