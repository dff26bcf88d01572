import Mathlib.Logic.Function.Basic
import Vosp.Error.Register

/-!
This module contains the interface of a register and the handler that routes an error to the first
register of its category. A handler refers to its registers, so their contents are in a store `ι → ρ`
that the handler's operations change; two positions may refer to the same register.
-/

namespace Vosp

/--
A register as a handler sees it. `category` belongs to the type of the register, so the operations do not change it.
-/
class IRegister (ρ : Type) where
  add : ρ → Error → OperationResult × ρ
  remove : ρ → Error → OperationResult × ρ
  category : ρ → Category
  category_add (r : ρ) (error : Error) : category (add r error).2 = category r
  category_remove (r : ρ) (error : Error) : category (remove r error).2 = category r

instance : IRegister ((category : Category) × Register category) where
  add r error := ((r.2.add error).1, ⟨r.1, (r.2.add error).2⟩)
  remove r error := ((r.2.remove error).1, ⟨r.1, (r.2.remove error).2⟩)
  category r := r.1
  category_add _ _ := rfl
  category_remove _ _ := rfl

inductive Operation where
  | add
  | remove
  deriving DecidableEq

structure Command where
  operation : Operation
  error : Error
  deriving DecidableEq

def Command.category (command : Command) : Category := command.error.category

namespace IRegister

variable {ρ : Type} [IRegister ρ]

def invoke (r : ρ) (command : Command) : OperationResult × ρ :=
  match command.operation with
  | .add => add r command.error
  | .remove => remove r command.error

def run (r : ρ) (commands : List Command) : List OperationResult × ρ :=
  match commands with
  | [] => ([], r)
  | ⟨.add, error⟩ :: commands =>
    let (result, r) := add r error
    let (results, r) := run r commands
    (result :: results, r)
  | ⟨.remove, error⟩ :: commands =>
    let (result, r) := remove r error
    let (results, r) := run r commands
    (result :: results, r)

theorem run_cons (r : ρ) (command : Command) (commands : List Command)
    : run r (command :: commands) =
        ((invoke r command).1 :: (run (invoke r command).2 commands).1, (run (invoke r command).2 commands).2) := by
  cases command with
  | mk operation error => cases operation <;> rfl

theorem category_invoke (r : ρ) (command : Command) : category (invoke r command).2 = category r := by
  unfold invoke
  split
  . exact category_add r command.error
  . exact category_remove r command.error

end IRegister

def missingRegisterCode : UInt32 := 0xE003

def missingRegister (category : Category) : Error :=
  ⟨category, missingRegisterCode, ascii "No register is configured for this category"⟩

structure Handler (ι : Type) where
  registers : List ι

namespace Handler

variable {ι ρ : Type} [DecidableEq ι] [IRegister ρ]

def dispatchFrom (registers : List ι) (store : ι → ρ) (command : Command) : OperationResult × (ι → ρ) :=
  match registers with
  | [] => (.error (missingRegister command.category), store)
  | i :: registers =>
    if IRegister.category (store i) ≠ command.category then
      dispatchFrom registers store command
    else
      let (result, r) := IRegister.invoke (store i) command
      (result, Function.update store i r)

def dispatch (handler : Handler ι) (store : ι → ρ) (command : Command) : OperationResult × (ι → ρ) :=
  dispatchFrom handler.registers store command

def add (handler : Handler ι) (store : ι → ρ) (error : Error) : OperationResult × (ι → ρ) :=
  handler.dispatch store ⟨.add, error⟩

def remove (handler : Handler ι) (store : ι → ρ) (error : Error) : OperationResult × (ι → ρ) :=
  handler.dispatch store ⟨.remove, error⟩

def call (handler : Handler ι) (store : ι → ρ) (command : Command) : OperationResult × (ι → ρ) :=
  match command.operation with
  | .add => handler.add store command.error
  | .remove => handler.remove store command.error

def run (handler : Handler ι) (store : ι → ρ) (commands : List Command)
    : List OperationResult × (ι → ρ) :=
  match commands with
  | [] => ([], store)
  | command :: commands =>
    let (result, store) := handler.call store command
    let (results, store) := handler.run store commands
    (result :: results, store)

end Handler

structure SynchronousErrorSystem (ι : Type) where
  handler : Handler ι

namespace SynchronousErrorSystem

variable {ι ρ : Type} [DecidableEq ι] [IRegister ρ]

def add (system : SynchronousErrorSystem ι) (store : ι → ρ) (error : Error) : OperationResult × (ι → ρ) :=
  system.handler.add store error

def remove (system : SynchronousErrorSystem ι) (store : ι → ρ) (error : Error)
    : OperationResult × (ι → ρ) :=
  system.handler.remove store error

def call (system : SynchronousErrorSystem ι) (store : ι → ρ) (command : Command)
    : OperationResult × (ι → ρ) :=
  match command.operation with
  | .add => system.add store command.error
  | .remove => system.remove store command.error

def run (system : SynchronousErrorSystem ι) (store : ι → ρ) (commands : List Command)
    : List OperationResult × (ι → ρ) :=
  match commands with
  | [] => ([], store)
  | command :: commands =>
    let (result, store) := system.call store command
    let (results, store) := system.run store commands
    (result :: results, store)

end SynchronousErrorSystem

end Vosp
