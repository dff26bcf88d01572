import Vosp.Error.Handler
import Vosp.Lib.Linear
import Vosp.Lib.System

/-!
This module contains the registers that several threads share. The threads call the members of a `Register`,
or `add` and `remove` of any number of handlers that refer to the registers. A `Handler` locks nothing, a
`ConcurrentHandler` has a mutex for every position of its array, and a register with the policy `ThreadSafe`
has one of its own. The multithreaded `ErrorSystem` is a `ConcurrentHandler`.

A step is one access to the contents of a register or one operation on a mutex. `History` is never read by a step.
-/

namespace Vosp

deriving instance DecidableEq for Register.Answer

-- `validate_limits` throws before the mutex is locked, and `capacity_limit` does not lock it.
def Register.unlocked {category : Category} (r : Register category) (call : Register.Call) : Bool :=
  match call with
  | .reserve expectedSize => (validateLimits expectedSize r.capacityLimit).toOption.isNone
  | .capacityLimit => true
  | _ => false

def Register.Call.mutates (call : Register.Call) : Bool :=
  match call with
  | .add _ | .remove _ | .removeCode _ | .clear | .reserve _ => true
  | .find _ | .contains _ | .containsCode _ | .snapshot | .size | .capacityLimit => false

def Command.call (command : Command) : Register.Call :=
  match command.operation with
  | .add => .add command.error
  | .remove => .remove command.error

namespace SharedRegisters

abbrev Stored := (category : Category) × Register category

def Stored.call (r : Stored) (call : Register.Call) : Register.Answer × Stored :=
  ((r.2.call call).1, ⟨r.1, (r.2.call call).2⟩)

/--
The registers and handlers that the threads share. `ι` are the addresses of the registers, `κ` those of the handlers.
-/
structure Setup (ι κ : Type) where
  threadSafe : ι → Bool
  handlers : κ → Handler ι
  synchronized : κ → Bool

inductive Operation (ι κ : Type) where
  | register (i : ι) (call : Register.Call)
  | handler (k : κ) (command : Command)

inductive Lock (ι κ : Type) where
  | register (i : ι)
  | position (k : κ) (index : Nat)
  deriving DecidableEq

structure Access (ι κ : Type) where
  operation : Operation ι κ
  register : ι
  call : Register.Call
  position : Option (κ × Nat)

inductive Pc (ι κ : Type) where
  | idle
  | validate (i : ι) (call : Register.Call)
  | route (k : κ) (command : Command) (index : Nat)
  | positionLock (k : κ) (command : Command) (index : Nat) (i : ι)
  | lock (access : Access ι κ)
  | read (access : Access ι κ)
  | write (access : Access ι κ) (answer : Register.Answer) (r : Stored)
  | unlock (access : Access ι κ) (answer : Register.Answer)
  | positionUnlock (operation : Operation ι κ) (k : κ) (index : Nat) (answer : Register.Answer)
  | ret (operation : Operation ι κ) (answer : Register.Answer)
  | returned (operation : Operation ι κ) (answer : Register.Answer)

structure History (τ ι κ : Type) where
  log : List (Linear.Entry τ (Operation ι κ) Register.Answer)
  first : τ → Nat
  last : τ → Nat

structure Memory (τ ι κ : Type) where
  store : ι → Stored
  owner : Lock ι κ → Option τ
  history : History τ ι κ

namespace Memory

variable {τ ι κ : Type} [DecidableEq τ] [DecidableEq ι] [DecidableEq κ]

def acquire (m : Memory τ ι κ) (lock : Lock ι κ) (call : τ) : Option (Memory τ ι κ) :=
  if m.owner lock = none then
    some { m with owner := Function.update m.owner lock (some call) }
  else
    none

def release (m : Memory τ ι κ) (lock : Lock ι κ) : Memory τ ι κ :=
  { m with owner := Function.update m.owner lock none }

def effect (m : Memory τ ι κ) (call : τ) (operation : Operation ι κ) (answer : Register.Answer) : Memory τ ι κ :=
  { m with history := { m.history with log := m.history.log ++ [⟨call, operation, answer⟩] } }

def start (m : Memory τ ι κ) (call : τ) : Memory τ ι κ :=
  { m with history := { m.history with first := Function.update m.history.first call m.history.log.length } }

def finish (m : Memory τ ι κ) (call : τ) : Memory τ ι κ :=
  { m with history := { m.history with last := Function.update m.history.last call m.history.log.length } }

end Memory

def Access.next {ι κ : Type} (access : Access ι κ) (answer : Register.Answer) : Pc ι κ :=
  match access.position with
  | none => .ret access.operation answer
  | some (k, index) => .positionUnlock access.operation k index answer

def Operation.entry {ι κ : Type} (operation : Operation ι κ) : Pc ι κ :=
  match operation with
  | .register i c => .validate i c
  | .handler k command => .route k command 0

variable {τ ι κ : Type} [DecidableEq τ] [DecidableEq ι] [DecidableEq κ]

def Pc.step (setup : Setup ι κ) (m : Memory τ ι κ) (call : τ) (pc : Pc ι κ) : Option (Memory τ ι κ × Pc ι κ) :=
  match pc with
  | .idle => none
  | .validate i c =>
    let operation := .register i c
    if (m.store i).2.unlocked c then
      let (answer, _) := (m.store i).call c
      some (m.effect call operation answer, .ret operation answer)
    else
      some (m, .lock ⟨operation, i, c, none⟩)
  | .route k command index =>
    let operation := .handler k command
    match (setup.handlers k).registers[index]? with
    | none =>
      let answer := .result (.error (missingRegister command.category))
      some (m.effect call operation answer, .ret operation answer)
    | some i =>
      if (m.store i).1 ≠ command.category then
        some (m, .route k command (index + 1))
      else if setup.synchronized k then
        some (m, .positionLock k command index i)
      else
        some (m, .lock ⟨operation, i, command.call, none⟩)
  | .positionLock k command index i =>
    (m.acquire (.position k index) call).map (·, .lock ⟨.handler k command, i, command.call, some (k, index)⟩)
  | .lock access =>
    if setup.threadSafe access.register then
      (m.acquire (.register access.register) call).map (·, .read access)
    else
      some (m, .read access)
  | .read access =>
    let (answer, r) := (m.store access.register).call access.call
    if access.call.mutates then
      some (m, .write access answer r)
    else
      some (m.effect call access.operation answer, .unlock access answer)
  | .write access answer r =>
    let m := { m with store := Function.update m.store access.register r }
    some (m.effect call access.operation answer, .unlock access answer)
  | .unlock access answer =>
    let m := if setup.threadSafe access.register then m.release (.register access.register) else m
    some (m, access.next answer)
  | .positionUnlock operation k index answer => some (m.release (.position k index), .ret operation answer)
  | .ret operation answer => some (m.finish call, .returned operation answer)
  | .returned _ _ => none

structure State (τ ι κ : Type) where
  memory : Memory τ ι κ
  pc : τ → Pc ι κ

inductive Event (τ ι κ : Type) where
  | call (call : τ) (operation : Operation ι κ)
  | step (call : τ)

namespace State

def init (store : ι → Stored) : State τ ι κ where
  memory := {
    store := store
    owner _ := none
    history := {
      log := []
      first _ := 0
      last _ := 0
    }
  }
  pc _ := .idle

def setPc (s : State τ ι κ) (call : τ) (pc : Pc ι κ) : State τ ι κ := { s with pc := Function.update s.pc call pc }

def step (setup : Setup ι κ) (s : State τ ι κ) (event : Event τ ι κ) : Option (State τ ι κ) :=
  match event with
  | .call call operation =>
    match s.pc call with
    | .idle => some ({ s with memory := s.memory.start call }.setPc call operation.entry)
    | _ => none
  | .step call => ((s.pc call).step setup s.memory call).map fun (m, pc) => { s with memory := m }.setPc call pc

end State

def system (setup : Setup ι κ) (store : ι → Stored) : System (State τ ι κ) (Event τ ι κ) where
  init := .init store
  step := State.step setup

end SharedRegisters

end Vosp
