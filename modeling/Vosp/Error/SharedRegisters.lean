import Vosp.Error.ConcurrentSystem
import Vosp.Error.Serialization
import Vosp.Lib.Mutex

/-!
This module contains the proof that the operations on shared registers are atomic: they took effect one after
the other, each of them between its call and its return. `Guarded` is what the callers have to see to for the
registers without a mutex: only one handler may refer to such a register, and it has to be a `ConcurrentHandler`.
-/

namespace Vosp

namespace SharedRegisters

variable {τ ι κ : Type} [DecidableEq τ] [DecidableEq ι] [DecidableEq κ]

inductive Edge (setup : Setup ι κ) (call : τ) (m : Memory τ ι κ) : Pc ι κ → Memory τ ι κ → Pc ι κ → Prop where
  | unlocked (i : ι) (c : Register.Call) (hunlocked : (m.store i).2.unlocked c = true)
    : Edge setup call m (.validate i c) (m.effect call (.register i c) ((m.store i).call c).1)
        (.ret (.register i c) ((m.store i).call c).1)
  | validate (i : ι) (c : Register.Call) : Edge setup call m (.validate i c) m (.lock ⟨.register i c, i, c, none⟩)
  | missing (k : κ) (command : Command) (index : Nat) (hnone : (setup.handlers k).registers[index]? = none)
    : Edge setup call m (.route k command index)
        (m.effect call (.handler k command) (.result (.error (missingRegister command.category))))
        (.ret (.handler k command) (.result (.error (missingRegister command.category))))
  | skip (k : κ) (command : Command) (index : Nat) {i : ι} (hi : (setup.handlers k).registers[index]? = some i)
      (hne : (m.store i).1 ≠ command.category)
    : Edge setup call m (.route k command index) m (.route k command (index + 1))
  | position (k : κ) (command : Command) (index : Nat) {i : ι} (hi : (setup.handlers k).registers[index]? = some i)
      (heq : (m.store i).1 = command.category) (hsync : setup.synchronized k = true)
    : Edge setup call m (.route k command index) m (.positionLock k command index i)
  | route (k : κ) (command : Command) (index : Nat) {i : ι} (hi : (setup.handlers k).registers[index]? = some i)
      (heq : (m.store i).1 = command.category) (hsync : setup.synchronized k = false)
    : Edge setup call m (.route k command index) m (.lock ⟨.handler k command, i, command.call, none⟩)
  | positionLock (k : κ) (command : Command) (index : Nat) (i : ι) (hfree : m.owner (.position k index) = none)
    : Edge setup call m (.positionLock k command index i)
        { m with owner := Function.update m.owner (.position k index) (some call) }
        (.lock ⟨.handler k command, i, command.call, some (k, index)⟩)
  | lock (access : Access ι κ) (hsafe : setup.threadSafe access.register = true)
      (hfree : m.owner (.register access.register) = none)
    : Edge setup call m (.lock access)
        { m with owner := Function.update m.owner (.register access.register) (some call) } (.read access)
  | lockNothing (access : Access ι κ) (hbare : setup.threadSafe access.register = false)
    : Edge setup call m (.lock access) m (.read access)
  | read (access : Access ι κ) (hmutates : access.call.mutates = true)
    : Edge setup call m (.read access) m
        (.write access ((m.store access.register).call access.call).1 ((m.store access.register).call access.call).2)
  | readConst (access : Access ι κ) (hconst : access.call.mutates = false)
    : Edge setup call m (.read access)
        (m.effect call access.operation ((m.store access.register).call access.call).1)
        (.unlock access ((m.store access.register).call access.call).1)
  | write (access : Access ι κ) (answer : Register.Answer) (r : Stored)
    : Edge setup call m (.write access answer r)
        ({ m with store := Function.update m.store access.register r }.effect call access.operation answer)
        (.unlock access answer)
  | unlock (access : Access ι κ) (answer : Register.Answer) (hsafe : setup.threadSafe access.register = true)
    : Edge setup call m (.unlock access answer) (m.release (.register access.register)) (access.next answer)
  | unlockNothing (access : Access ι κ) (answer : Register.Answer) (hbare : setup.threadSafe access.register = false)
    : Edge setup call m (.unlock access answer) m (access.next answer)
  | positionUnlock (operation : Operation ι κ) (k : κ) (index : Nat) (answer : Register.Answer)
    : Edge setup call m (.positionUnlock operation k index answer) (m.release (.position k index))
        (.ret operation answer)
  | ret (operation : Operation ι κ) (answer : Register.Answer)
    : Edge setup call m (.ret operation answer) (m.finish call) (.returned operation answer)

variable {setup : Setup ι κ} {call : τ} {m m' : Memory τ ι κ} {pc pc' : Pc ι κ}

omit [DecidableEq τ] in
theorem acquire_eq_some {lock : Lock ι κ}
    : m.acquire lock call = some m' ↔
        m.owner lock = none ∧ { m with owner := Function.update m.owner lock (some call) } = m' := by
  unfold Memory.acquire
  split
  . next hfree => simp [hfree]
  . next hheld => simp [hheld]

theorem edge_of_step (h : pc.step setup m call = some (m', pc')) : Edge setup call m pc m' pc' := by
  cases pc <;> simp only [Pc.step] at h
  case validate i c =>
    split at h
    . next hunlocked =>
      cases h
      exact .unlocked i c hunlocked
    . cases h
      exact .validate i c
  case route k command index =>
    split at h
    . next hnone =>
      cases h
      exact .missing k command index hnone
    . next i hi =>
      split at h
      . next hne =>
        cases h
        exact .skip k command index hi hne
      . next heq =>
        rw [Decidable.not_not] at heq
        split at h
        . next hsync =>
          cases h
          exact .position k command index hi heq hsync
        . next hsync =>
          cases h
          exact .route k command index hi heq (Bool.not_eq_true _ ▸ hsync)
  case positionLock k command index i =>
    obtain ⟨m₁, hacquire, hpair⟩ := Option.map_eq_some_iff.mp h
    obtain ⟨hfree, rfl⟩ := acquire_eq_some.mp hacquire
    cases hpair
    exact .positionLock k command index i hfree
  case lock access =>
    split at h
    . next hsafe =>
      obtain ⟨m₁, hacquire, hpair⟩ := Option.map_eq_some_iff.mp h
      obtain ⟨hfree, rfl⟩ := acquire_eq_some.mp hacquire
      cases hpair
      exact .lock access hsafe hfree
    . next hbare =>
      cases h
      exact .lockNothing access (Bool.not_eq_true _ ▸ hbare)
  case read access =>
    split at h
    . next hmutates =>
      cases h
      exact .read access hmutates
    . next hconst =>
      cases h
      exact .readConst access (Bool.not_eq_true _ ▸ hconst)
  case unlock access answer =>
    cases h
    split
    . next hsafe => exact .unlock access answer hsafe
    . next hbare => exact .unlockNothing access answer (Bool.not_eq_true _ ▸ hbare)
  case idle | returned => cases h
  all_goals
    cases h
    constructor

def Access.holds (access : Access ι κ) (lock : Lock ι κ) : Bool :=
  match lock with
  | .register _ => false
  | .position k index => access.position = some (k, index)

def Pc.holds (setup : Setup ι κ) (pc : Pc ι κ) (lock : Lock ι κ) : Bool :=
  match pc with
  | .lock access => access.holds lock
  | .read access | .write access _ _ | .unlock access _ =>
    access.holds lock || (setup.threadSafe access.register && lock = .register access.register)
  | .positionUnlock _ k index _ => lock = .position k index
  | _ => false

theorem Access.holds_next (access : Access ι κ) (answer : Register.Answer) (lock : Lock ι κ)
    : (access.next answer).holds setup lock = access.holds lock := by
  unfold next
  split
  . next hnone => cases lock <;> simp [Pc.holds, Access.holds, hnone]
  . next k index hsome => cases lock <;> simp [Pc.holds, Access.holds, hsome, eq_comm]

theorem Edge.owner (h : Edge setup call m pc m' pc')
    : (∃ lock, m.owner lock = none ∧ m'.owner = Function.update m.owner lock (some call) ∧
          ∀ other, pc'.holds setup other = (pc.holds setup other || decide (other = lock))) ∨
        (∃ lock, pc.holds setup lock = true ∧ m'.owner = Function.update m.owner lock none ∧
          ∀ other, pc'.holds setup other = (pc.holds setup other && decide (other ≠ lock))) ∨
        (m'.owner = m.owner ∧ pc'.holds setup = pc.holds setup) := by
  cases h
  case positionLock k command index i hfree =>
    refine .inl ⟨_, hfree, rfl, ?_⟩
    intro other
    cases other <;> simp [Pc.holds, Access.holds, eq_comm]
  case lock access hsafe hfree =>
    refine .inl ⟨_, hfree, rfl, ?_⟩
    intro other
    simp [Pc.holds, hsafe]
  case unlock access answer hsafe =>
    refine .inr (.inl ⟨.register access.register, by simp [Pc.holds, hsafe], rfl, ?_⟩)
    intro other
    rw [Access.holds_next]
    cases other <;> simp [Pc.holds, Access.holds, hsafe]
  case positionUnlock operation k index answer =>
    refine .inr (.inl ⟨.position k index, by simp [Pc.holds], rfl, ?_⟩)
    intro other
    simp [Pc.holds]
  case lockNothing access hbare =>
    refine .inr (.inr ⟨rfl, ?_⟩)
    funext other
    simp [Pc.holds, hbare]
  case unlockNothing access answer hbare =>
    refine .inr (.inr ⟨rfl, ?_⟩)
    funext other
    rw [Access.holds_next]
    simp [Pc.holds, hbare]
  case route k command index i hi heq hsync =>
    refine .inr (.inr ⟨rfl, ?_⟩)
    funext other
    cases other <;> simp [Pc.holds, Access.holds]
  case validate i c =>
    refine .inr (.inr ⟨rfl, ?_⟩)
    funext other
    cases other <;> simp [Pc.holds, Access.holds]
  all_goals exact .inr (.inr ⟨rfl, rfl⟩)

def Setup.run (setup : Setup ι κ) (store : ι → Stored) (operation : Operation ι κ)
    : Register.Answer × (ι → Stored) :=
  match operation with
  | .register i c =>
    let (answer, r) := (store i).call c
    (answer, Function.update store i r)
  | .handler k command =>
    let (result, store) := (setup.handlers k).call store command
    (.result result, store)

def Setup.Guarded (setup : Setup ι κ) (store : ι → Stored) : Prop :=
  ∀ i, setup.threadSafe i = false → ∃ k, setup.synchronized k = true ∧
    ∀ other command index, (setup.handlers other).First store command index i → other = k

def Setup.permits (setup : Setup ι κ) (event : Event τ ι κ) : Bool :=
  match event with
  | .call _ (.register i _) => setup.threadSafe i
  | _ => true

inductive Access.Ok (setup : Setup ι κ) (store : ι → Stored) : Access ι κ → Prop where
  | register (i : ι) (c : Register.Call) (hsafe : setup.threadSafe i = true)
    : Ok setup store ⟨.register i c, i, c, none⟩
  | handler {k : κ} {command : Command} {index : Nat} {i : ι} (hfirst : (setup.handlers k).First store command index i)
      (hsync : setup.synchronized k = false)
    : Ok setup store ⟨.handler k command, i, command.call, none⟩
  | concurrent {k : κ} {command : Command} {index : Nat} {i : ι}
      (hfirst : (setup.handlers k).First store command index i) (hsync : setup.synchronized k = true)
    : Ok setup store ⟨.handler k command, i, command.call, some (k, index)⟩

def Pc.Ok (setup : Setup ι κ) (store : ι → Stored) (pc : Pc ι κ) : Prop :=
  match pc with
  | .validate i _ => setup.threadSafe i = true
  | .route k command index => ∀ (m : Nat) (j : ι), m < index → (setup.handlers k).registers[m]? = some j →
    (store j).1 ≠ command.category
  | .positionLock k command index i => (setup.handlers k).First store command index i ∧ setup.synchronized k = true
  | .lock access | .read access | .write access _ _ | .unlock access _ => access.Ok setup store
  | _ => True

def Pc.Cached (store : ι → Stored) (pc : Pc ι κ) : Prop :=
  match pc with
  | .write access answer r => (store access.register).call access.call = (answer, r)
  | _ => True

def Pc.progress (pc : Pc ι κ) : Linear.Progress (Operation ι κ) Register.Answer :=
  match pc with
  | .idle => .outside
  | .validate .. | .route .. | .positionLock .. | .lock _ | .read _ | .write .. => .pending
  | .unlock access answer => .done access.operation answer
  | .positionUnlock operation _ _ answer | .ret operation answer => .done operation answer
  | .returned operation answer => .returned operation answer

section

omit [DecidableEq τ] [DecidableEq ι] [DecidableEq κ]

theorem call_fst (r : Stored) (c : Register.Call) : (r.call c).2.1 = r.1 := by
  rfl

theorem call_of_const {c : Register.Call} (hconst : c.mutates = false) (r : Stored) : (r.call c).2 = r := by
  cases c
  case add | remove | removeCode | clear | reserve => cases hconst
  all_goals rfl

theorem call_of_unlocked {r : Stored} {c : Register.Call} (h : r.2.unlocked c = true) : (r.call c).2 = r := by
  cases c
  case capacityLimit => rfl
  case reserve expectedSize =>
    have hinvalid : ∃ exception, Register.validateLimits expectedSize r.2.capacityLimit = .error exception := by
      simp only [Register.unlocked] at h
      cases hlimits : Register.validateLimits expectedSize r.2.capacityLimit with
      | error exception => exact ⟨exception, rfl⟩
      | ok limits =>
        rw [hlimits] at h
        cases h
    obtain ⟨exception, hlimits⟩ := hinvalid
    have hreserve : r.2.reserve expectedSize = .error exception := by
      unfold Register.reserve
      rw [hlimits]
      rfl
    simp only [Stored.call, Register.call, hreserve]
  all_goals cases h

theorem call_command (r : Stored) (command : Command)
    : r.call command.call = (.result (IRegister.invoke r command).1, (IRegister.invoke r command).2) := by
  cases command with
  | mk operation error => cases operation <;> rfl

theorem Access.next_progress (access : Access ι κ) (answer : Register.Answer)
    : (access.next answer).progress = .done access.operation answer := by
  unfold next
  split <;> rfl

theorem Pc.Cached.mono {pc : Pc ι κ} {store store' : ι → Stored} (h : pc.Cached store)
    (hsame : ∀ access answer r, pc = .write access answer r → store' access.register = store access.register)
    : pc.Cached store' := by
  cases pc
  case write access answer r =>
    have hcached : (store access.register).call access.call = (answer, r) := h
    rw [← hsame access answer r rfl] at hcached
    exact hcached
  all_goals trivial

theorem Access.next_cached (access : Access ι κ) (answer : Register.Answer) (store : ι → Stored)
    : (access.next answer).Cached store := by
  unfold next
  split <;> trivial

theorem Access.next_ok (access : Access ι κ) (answer : Register.Answer) (store : ι → Stored)
    : (access.next answer).Ok setup store := by
  unfold next
  split <;> trivial

end

omit [DecidableEq κ] in
theorem Access.Ok.run_eq {access : Access ι κ} {store store' : ι → Stored} (h : access.Ok setup store)
    (hcategory : ∀ i, (store' i).1 = (store i).1)
    : setup.run store' access.operation =
        (((store' access.register).call access.call).1,
          Function.update store' access.register ((store' access.register).call access.call).2) := by
  cases h with
  | register => rfl
  | handler hfirst | concurrent hfirst =>
    simp only [Setup.run, (hfirst.mono hcategory).call_eq, call_command]

namespace State

inductive Step (setup : Setup ι κ) (s : State τ ι κ) : Event τ ι κ → State τ ι κ → Prop where
  | start {call : τ} (operation : Operation ι κ) (hidle : s.pc call = .idle)
    : Step setup s (.call call operation) ({ s with memory := s.memory.start call }.setPc call operation.entry)
  | step {call : τ} {m : Memory τ ι κ} {pc : Pc ι κ} (hedge : Edge setup call s.memory (s.pc call) m pc)
    : Step setup s (.step call) ({ s with memory := m }.setPc call pc)

variable {s s' : State τ ι κ} {event : Event τ ι κ} {store : ι → Stored} {other : τ}

omit [DecidableEq ι] [DecidableEq κ] in
theorem pc_self : (s.setPc call pc).pc call = pc := Function.update_self _ _ _

omit [DecidableEq ι] [DecidableEq κ] in
theorem pc_of_ne (h : other ≠ call) : (s.setPc call pc).pc other = s.pc other := Function.update_of_ne h _ _

theorem step_cases (h : s.step setup event = some s') : Step setup s event s' := by
  cases event <;> simp only [step] at h
  case call call operation =>
    split at h
    . next hidle =>
      cases h
      exact .start operation hidle
    . cases h
  case step call =>
    obtain ⟨⟨m, pc⟩, hstep, rfl⟩ := Option.map_eq_some_iff.mp h
    exact .step (edge_of_step hstep)

def Owned (setup : Setup ι κ) (s : State τ ι κ) : Prop :=
  Mutex.Owned (fun call => (s.pc call).holds setup) s.memory.owner

theorem Owned.step (h : s.Owned setup) (hstep : Step setup s event s') : s'.Owned setup := by
  cases hstep with
  | @start call operation hidle =>
    apply h.frame
    intro u
    by_cases hu : u = call
    . subst hu
      simp only [pc_self, hidle]
      cases operation <;> rfl
    . simp only [pc_of_ne hu]
  | @step call m pc hedge =>
    have hothers : ∀ u, u ≠ call →
        (({ s with memory := m } : State τ ι κ).setPc call pc).pc u = s.pc u := fun u hu => pc_of_ne hu
    rcases hedge.owner with ⟨lock, hfree, howner, hholds⟩ | ⟨lock, hheld, howner, hholds⟩ | ⟨howner, hholds⟩
    . unfold Owned
      rw [show (({ s with memory := m } : State τ ι κ).setPc call pc).memory.owner = m.owner from rfl, howner]
      apply Mutex.Owned.lock h hfree
      . intro other
        simp only [pc_self, hholds]
      . intro u hu
        simp only [hothers u hu]
    . unfold Owned
      rw [show (({ s with memory := m } : State τ ι κ).setPc call pc).memory.owner = m.owner from rfl, howner]
      apply Mutex.Owned.unlock h (t := call) hheld
      . intro other
        simp only [pc_self, hholds]
      . intro u hu
        simp only [hothers u hu]
    . unfold Owned
      rw [show (({ s with memory := m } : State τ ι κ).setPc call pc).memory.owner = m.owner from rfl, howner]
      apply Mutex.Owned.frame h
      intro u
      by_cases hu : u = call
      . subst hu
        simp only [pc_self, hholds]
      . simp only [hothers u hu]

structure Valid (setup : Setup ι κ) (store : ι → Stored) (s : State τ ι κ) : Prop where
  owned : s.Owned setup
  category : ∀ i, (s.memory.store i).1 = (store i).1
  routed : ∀ call, (s.pc call).Ok setup store
  cached : ∀ call, (s.pc call).Cached s.memory.store
  replay : Linear.replay setup.run store s.memory.history.log = some s.memory.store
  tracked : Linear.Tracked s.memory.history.log s.memory.history.first s.memory.history.last
    (fun call => (s.pc call).progress)

namespace Valid

omit [DecidableEq τ] in
theorem init (setup : Setup ι κ) (store : ι → Stored) : (State.init store : State τ ι κ).Valid setup store where
  owned := Mutex.Owned.none fun _ _ => rfl
  category _ := rfl
  routed _ := trivial
  cached _ := trivial
  replay := rfl
  tracked := .init _ _

omit [DecidableEq ι] [DecidableEq κ] in
theorem progress_of_ne (other : τ) (h : other ≠ call)
    : ((s.setPc call pc).pc other).progress = (s.pc other).progress := by
  rw [pc_of_ne h]

theorem routed_update (h : s.Valid setup store) (hok : pc.Ok setup store) (other : τ)
    : ((({ s with memory := m } : State τ ι κ).setPc call pc).pc other).Ok setup store := by
  by_cases hother : other = call
  . rw [hother, pc_self]
    exact hok
  . rw [pc_of_ne hother]
    exact h.routed other

theorem cached_update (h : s.Valid setup store) (hcached : pc.Cached s.memory.store) (other : τ)
    : ((({ s with memory := m } : State τ ι κ).setPc call pc).pc other).Cached s.memory.store := by
  by_cases hother : other = call
  . rw [hother, pc_self]
    exact hcached
  . rw [pc_of_ne hother]
    exact h.cached other

theorem same (h : s.Valid setup store) (howned : (({ s with memory := m } : State τ ι κ).setPc call pc).Owned setup)
    (hstore : m.store = s.memory.store) (hhistory : m.history = s.memory.history) (hok : pc.Ok setup store)
    (hcached : pc.Cached s.memory.store) (hprogress : pc.progress = (s.pc call).progress)
    : (({ s with memory := m } : State τ ι κ).setPc call pc).Valid setup store where
  owned := howned
  category i := by
    simp only [setPc, hstore]
    exact h.category i
  routed := h.routed_update hok
  cached other := by
    simp only [setPc, hstore]
    exact h.cached_update (m := m) hcached other
  replay := by
    simp only [setPc, hstore, hhistory]
    exact h.replay
  tracked := by
    have hsame : (fun other => ((({ s with memory := m } : State τ ι κ).setPc call pc).pc other).progress) =
        fun other => (s.pc other).progress := by
      funext other
      by_cases hother : other = call
      . rw [hother, pc_self, hprogress]
      . rw [pc_of_ne hother]
    rw [hsame]
    simp only [setPc, hhistory]
    exact h.tracked

theorem effect (h : s.Valid setup store) {store' : ι → Stored} {operation : Operation ι κ} {answer : Register.Answer}
    (howned : (({ s with memory := { s.memory with store := store' }.effect call operation answer }
      : State τ ι κ).setPc call pc).Owned setup)
    (hrun : setup.run s.memory.store operation = (answer, store'))
    (hcategory : ∀ i, (store' i).1 = (s.memory.store i).1) (hok : pc.Ok setup store) (hcached : pc.Cached store')
    (hpending : (s.pc call).progress = .pending) (hdone : pc.progress = .done operation answer)
    (hothers : ∀ other access answer r, other ≠ call → s.pc other = .write access answer r →
      store' access.register = s.memory.store access.register)
    : (({ s with memory := { s.memory with store := store' }.effect call operation answer }
        : State τ ι κ).setPc call pc).Valid setup store where
  owned := howned
  category i := (hcategory i).trans (h.category i)
  routed := h.routed_update hok
  cached other := by
    by_cases hother : other = call
    . rw [hother, pc_self]
      exact hcached
    . rw [pc_of_ne hother]
      exact (h.cached other).mono fun access answer r => hothers other access answer r hother
  replay := Linear.replay_concat h.replay hrun call
  tracked := Linear.Tracked.effect h.tracked hpending ((congrArg Pc.progress pc_self).trans hdone) progress_of_ne

omit [DecidableEq τ] in
-- Two calls that are past the mutexes are in different registers.
theorem exclusive (h : s.Valid setup store) (hguarded : setup.Guarded store) {access access' : Access ι κ}
    {answer answer' : Register.Answer} {r r' : Stored} (hcall : s.pc call = .write access answer r)
    (hother : s.pc other = .write access' answer' r') (hregister : access'.register = access.register)
    : other = call := by
  have hholds : ∀ lock, (Pc.write access answer r).holds setup lock = true →
      (Pc.write access' answer' r').holds setup lock = true → other = call := by
    intro lock hlock hlock'
    apply Mutex.Owned.unique h.owned (a := lock)
    . simp only [hother, hlock']
    . simp only [hcall, hlock]
  have hok : access.Ok setup store := by
    have hrouted := h.routed call
    rw [hcall] at hrouted
    exact hrouted
  have hok' : access'.Ok setup store := by
    have hrouted := h.routed other
    rw [hother] at hrouted
    exact hrouted
  cases hsafe : setup.threadSafe access.register with
  | true =>
    apply hholds (.register access.register)
    . simp [Pc.holds, hsafe]
    . simp [Pc.holds, hregister, hsafe]
  | false =>
    obtain ⟨k, hsync, honly⟩ := hguarded access.register hsafe
    cases hok with
    | register i c hsafe' =>
      rw [hsafe] at hsafe'
      cases hsafe'
    | handler hfirst hnosync =>
      rw [honly _ _ _ hfirst, hsync] at hnosync
      cases hnosync
    | @concurrent k₁ command index i hfirst hsync₁ =>
      cases hok' with
      | register i' c hsafe' =>
        rw [show i' = i from hregister, hsafe] at hsafe'
        cases hsafe'
      | @handler k₂ command' index' i' hfirst' hnosync =>
        obtain rfl : i' = i := hregister
        rw [honly _ _ _ hfirst', hsync] at hnosync
        cases hnosync
      | @concurrent k₂ command' index' i' hfirst' hsync₂ =>
        obtain rfl : i' = i := hregister
        obtain rfl := honly _ _ _ hfirst
        obtain rfl := honly _ _ _ hfirst'
        obtain rfl := hfirst.unique hfirst'
        apply hholds (.position k₂ index)
        . simp [Pc.holds, Access.holds]
        . simp [Pc.holds, Access.holds]

theorem step (h : s.Valid setup store) (hguarded : setup.Guarded store) (hpermits : setup.permits event = true)
    (hstep : Step setup s event s')
    : s'.Valid setup store := by
  have howned := h.owned.step hstep
  cases hstep with
  | @start call operation hidle =>
    constructor
    case owned => exact howned
    case category => exact h.category
    case routed =>
      apply h.routed_update
      cases operation with
      | register i c => exact hpermits
      | handler k command => exact fun m j hm => absurd hm (Nat.not_lt_zero _)
    case cached =>
      apply h.cached_update
      cases operation <;> trivial
    case replay => exact h.replay
    case tracked =>
      have hafter : operation.entry.progress = .pending := by cases operation <;> rfl
      exact Linear.Tracked.start h.tracked (by rw [hidle]; rfl) ((congrArg Pc.progress pc_self).trans hafter)
        (progress_of_ne (s := { s with memory := s.memory.start call }))
  | @step call m pc hedge =>
    have hrouted := h.routed call
    have hcached := h.cached call
    generalize hbefore : s.pc call = before at hedge hrouted hcached
    -- What a call that changes nothing does is seen by nobody.
    have hread : ∀ {operation : Operation ι κ} {answer : Register.Answer},
        setup.run s.memory.store operation = (answer, s.memory.store) → pc.Ok setup store →
        pc.Cached s.memory.store → before.progress = .pending → pc.progress = .done operation answer →
        m = s.memory.effect call operation answer →
        (({ s with memory := m } : State τ ι κ).setPc call pc).Valid setup store := by
      rintro operation answer hrun hok hcached hpending hdone rfl
      exact h.effect howned hrun (fun _ => rfl) hok hcached (hbefore ▸ hpending) hdone (fun _ _ _ _ _ _ => rfl)
    cases hedge with
    | unlocked i c hunlocked =>
      apply hread _ trivial trivial rfl rfl rfl
      simp only [Setup.run, call_of_unlocked hunlocked, Function.update_eq_self]
    | validate i c => exact h.same howned rfl rfl (.register i c hrouted) trivial (by rw [hbefore]; rfl)
    | missing k command index hnone =>
      apply hread _ trivial trivial rfl rfl rfl
      have hroute : (setup.handlers k).route s.memory.store command.category = none := by
        rw [Handler.route_eq_none_iff]
        intro i hi
        obtain ⟨j, hj, rfl⟩ := List.getElem_of_mem hi
        have hne := hrouted j _ (Nat.lt_of_lt_of_le hj (List.getElem?_eq_none_iff.mp hnone))
          (List.getElem?_eq_getElem hj)
        rw [← h.category] at hne
        exact hne
      simp only [Setup.run, Handler.call_of_route_eq_none hroute]
    | skip k command index hi hne =>
      refine h.same howned rfl rfl ?_ trivial (by rw [hbefore]; rfl)
      intro j i' hj hi'
      rcases Nat.lt_or_eq_of_le (Nat.le_of_lt_succ hj) with hlt | rfl
      . exact hrouted j i' hlt hi'
      . rw [hi] at hi'
        cases hi'
        rw [← h.category]
        exact hne
    | position k command index hi heq hsync =>
      rw [h.category] at heq
      exact h.same howned rfl rfl ⟨⟨hi, heq, hrouted⟩, hsync⟩ trivial (by rw [hbefore]; rfl)
    | route k command index hi heq hsync =>
      rw [h.category] at heq
      exact h.same howned rfl rfl (.handler ⟨hi, heq, hrouted⟩ hsync) trivial (by rw [hbefore]; rfl)
    | positionLock k command index i =>
      exact h.same howned rfl rfl (.concurrent hrouted.1 hrouted.2) trivial (by rw [hbefore]; rfl)
    | lock access | lockNothing access => exact h.same howned rfl rfl hrouted trivial (by rw [hbefore]; rfl)
    | read access => exact h.same howned rfl rfl hrouted rfl (by rw [hbefore]; rfl)
    | readConst access hconst =>
      apply hread _ hrouted trivial rfl rfl rfl
      rw [hrouted.run_eq h.category, call_of_const hconst, Function.update_eq_self]
    | write access answer r =>
      have hcall : (s.memory.store access.register).call access.call = (answer, r) := hcached
      apply h.effect howned _ _ hrouted trivial (by rw [hbefore]; rfl) rfl
      . intro other access' answer' r' hother hwrite
        apply Function.update_of_ne
        intro hregister
        exact hother (h.exclusive hguarded hbefore hwrite hregister)
      . rw [hrouted.run_eq h.category, hcall]
      . intro i
        by_cases hi : i = access.register
        . rw [hi, Function.update_self]
          have hfst := call_fst (s.memory.store access.register) access.call
          rw [hcall] at hfst
          exact hfst
        . rw [Function.update_of_ne hi]
    | unlock access answer | unlockNothing access answer =>
      exact h.same howned rfl rfl (access.next_ok answer store) (access.next_cached answer _)
        (by rw [hbefore, access.next_progress]; rfl)
    | positionUnlock operation k index answer => exact h.same howned rfl rfl trivial trivial (by rw [hbefore]; rfl)
    | ret operation answer =>
      constructor
      case owned => exact howned
      case category => exact h.category
      case routed => exact h.routed_update trivial
      case cached => exact h.cached_update trivial
      case replay => exact h.replay
      case tracked =>
        exact Linear.Tracked.finish h.tracked (by rw [hbefore]; rfl) (congrArg Pc.progress pc_self)
          (progress_of_ne (s := { s with memory := s.memory.finish call }))

end Valid

theorem valid (hguarded : setup.Guarded store)
    (hs : (system setup store).ReachableVia (fun _ event => setup.permits event = true) s)
    : s.Valid setup store :=
  hs.invariant (.init setup store) fun _ _ _ _ h hpermits hstep => h.step hguarded hpermits (step_cases hstep)

/--
Every operation takes effect at one instant between its call and its return. The log has them in this order.
-/
structure Linearizable (setup : Setup ι κ) (store : ι → Stored) (s : State τ ι κ) : Prop where
  replay : Linear.replay setup.run store s.memory.history.log = some s.memory.store
  once : (s.memory.history.log.map Linear.Entry.call).Nodup
  pending : ∀ call, ¬(s.pc call).progress.logged → call ∉ s.memory.history.log.map Linear.Entry.call
  returned : ∀ call operation answer, s.pc call = .returned operation answer →
    ∃ i before, s.memory.history.first call ≤ i ∧ i < s.memory.history.last call ∧
      s.memory.history.log[i]? = some ⟨call, operation, answer⟩ ∧
      Linear.replay setup.run store (s.memory.history.log.take i) = some before ∧
      (setup.run before operation).1 = answer

omit [DecidableEq τ] in
theorem Valid.linearizable (h : s.Valid setup store) : s.Linearizable setup store where
  replay := h.replay
  once := h.tracked.once
  pending := h.tracked.fresh
  returned call operation answer hreturned := by
    obtain ⟨i, hfirst, hlast, hentry⟩ := h.tracked.returned call operation answer
      (show (s.pc call).progress = .returned operation answer by rw [hreturned]; rfl)
    obtain ⟨before, hbefore, hanswer⟩ := Linear.replay_take h.replay hentry
    exact ⟨i, before, hfirst, hlast, hentry, hbefore, hanswer⟩

end State

end SharedRegisters

open SharedRegisters

theorem shared_registers_linearizable {τ ι κ : Type} [DecidableEq τ] [DecidableEq ι] [DecidableEq κ]
    {setup : Setup ι κ} {store : ι → Stored} (hguarded : setup.Guarded store) {s : SharedRegisters.State τ ι κ}
    (hs : (SharedRegisters.system setup store).ReachableVia (fun _ event => setup.permits event = true) s)
    : s.Linearizable setup store :=
  (State.valid hguarded hs).linearizable

def sharedSetup : Setup Nat Unit where
  threadSafe i := i = 0
  handlers _ := ⟨[0, 1]⟩
  synchronized _ := true

def sharedStore (i : Nat) : Stored :=
  if i = 0 then ⟨.network, .empty .network⟩ else ⟨.database, .empty .database⟩

def databaseCommand : Command := ⟨.add, ⟨.database, 2000, ascii "Database error"⟩⟩

theorem shared_registers_linearizable_contended
    : ∃ s : SharedRegisters.State Nat Nat Unit, s.memory.owner (.position () 1) = some 2 ∧
        s.memory.history.log.length = 1 ∧ s.Linearizable sharedSetup sharedStore := by
  have hrun :
      (((SharedRegisters.system sharedSetup sharedStore).restrict fun _ event => sharedSetup.permits event).run
      (SharedRegisters.State.init sharedStore)
      (.call 1 (.handler () databaseCommand) :: List.replicate 5 (.step 1) ++
        .call 2 (.handler () databaseCommand) :: List.replicate 2 (.step 2) ++
        List.replicate 3 (.step 1) ++ [.step 2])).map
      (fun s => decide (s.memory.owner (.position () 1) = some 2) && decide (s.memory.history.log.length = 1)) =
        some true := by
    decide +kernel
  obtain ⟨s, hs, hp⟩ := System.exists_via_of_run _ hrun
  simp only [Bool.and_eq_true, decide_eq_true_eq] at hp
  have hguarded : sharedSetup.Guarded sharedStore := fun _ _ => ⟨(), rfl, fun _ _ _ _ => rfl⟩
  exact ⟨s, hp.1, hp.2, shared_registers_linearizable hguarded hs⟩

end Vosp
