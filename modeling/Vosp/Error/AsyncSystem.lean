import Vosp.Error.Handler
import Vosp.Pool.Program

/-!
This module contains the asynchronous `ErrorSystem` with a worker pool as its executor. `add` and
`remove` submit a task whose closure holds the operation. The worker that executes it runs the
dispatch of a `ConcurrentHandler`, which is a loop over the registers and, for the first one that
matches, a critical section of that register's mutex. A register has no locking of its own, so its
operation is a read and a write of its contents.

The pool may run other tasks as well, and any thread may use it. `order` is a history of the
operations that took effect, which no step reads.
-/

namespace Vosp

open Pool (Config Thread Choice Frame Outcome)

/--
Where a worker is in the task of an operation. It holds the mutex from `read` to `unlock`.
-/
inductive Body (ι ρ : Type) where
  | route (index : Nat)
  | lock (index : Nat) (i : ι)
  | read (index : Nat) (i : ι)
  | write (index : Nat) (i : ι) (result : OperationResult) (r : ρ)
  | unlock (index : Nat) (result : OperationResult)
  | ret (result : OperationResult)

structure Applied where
  id : Nat
  command : Command
  result : OperationResult

/--
The pool with the closures of its tasks, and the registers that the tasks work on.
-/
structure AsyncState (cfg : Config) (C ι ρ : Type) where
  pool : Pool.State cfg C
  store : ι → ρ
  mutexes : Nat → Option (Fin cfg.workerCount)
  body : Fin cfg.workerCount → Body ι ρ
  closure : Nat → Option Command
  order : List Applied

inductive AsyncEvent (cfg : Config) (C : Type) where
  | invoke (thread : Thread cfg C) (command : Command)
  | task (worker : Fin cfg.workerCount)
  | pool (event : Pool.Event cfg C)

namespace AsyncState

variable {cfg : Config} {C ι ρ : Type}

def current (s : AsyncState cfg C ι ρ) (worker : Fin cfg.workerCount) : Option (Frame × Command) :=
  match s.pool.pc (.worker worker) with
  | .resting (some f) _ => (s.closure f.item.id).map fun command => (f, command)
  | _ => none

def occupied (s : AsyncState cfg C ι ρ) (thread : Thread cfg C) : Bool :=
  match thread with
  | .worker worker => (s.current worker).isSome
  | .client _ => false

def setBody (s : AsyncState cfg C ι ρ) (worker : Fin cfg.workerCount) (body : Body ι ρ)
    : AsyncState cfg C ι ρ :=
  { s with body := Function.update s.body worker body }

def setMutex (s : AsyncState cfg C ι ρ) (index : Nat) (owner : Option (Fin cfg.workerCount))
    : AsyncState cfg C ι ρ :=
  { s with mutexes := Function.update s.mutexes index owner }

def apply (s : AsyncState cfg C ι ρ) (f : Frame) (command : Command) (result : OperationResult)
    : AsyncState cfg C ι ρ :=
  { s with order := s.order ++ [⟨f.item.id, command, result⟩] }

variable [Fintype C] [DecidableEq C] [DecidableEq ι] [IRegister ρ]

def init (store : ι → ρ) : AsyncState cfg C ι ρ where
  pool := .init
  store := store
  mutexes _ := none
  body _ := .route 0
  closure _ := none
  order := []

def stepPool (s : AsyncState cfg C ι ρ) (event : Pool.Event cfg C) : Option (AsyncState cfg C ι ρ) :=
  (s.pool.step event).map fun pool => { s with pool := pool }

def stepTask (handler : Handler ι) (s : AsyncState cfg C ι ρ) (worker : Fin cfg.workerCount) (f : Frame)
    (command : Command) : Option (AsyncState cfg C ι ρ) :=
  match s.body worker with
  | .route index =>
    match handler.registers[index]? with
    | none =>
      let result := .error (missingRegister command.category)
      some ((s.apply f command result).setBody worker (.ret result))
    | some i =>
      if IRegister.category (s.store i) ≠ command.category then
        some (s.setBody worker (.route (index + 1)))
      else
        some (s.setBody worker (.lock index i))
  | .lock index i =>
    if s.mutexes index = none then
      some ((s.setMutex index (some worker)).setBody worker (.read index i))
    else
      none
  | .read index i =>
    let (result, r) := IRegister.invoke (s.store i) command
    some (s.setBody worker (.write index i result r))
  | .write index i result r =>
    let s := { s with store := Function.update s.store i r }
    some ((s.apply f command result).setBody worker (.unlock index result))
  | .unlock index result => some ((s.setMutex index none).setBody worker (.ret result))
  | .ret result =>
    (s.stepPool (.step (.worker worker) (.ret (.result result)))).map (·.setBody worker (.route 0))

-- A worker that executes the task of an operation takes only the steps of that task.
def step (handler : Handler ι) (s : AsyncState cfg C ι ρ) (event : AsyncEvent cfg C)
    : Option (AsyncState cfg C ι ρ) :=
  match event with
  | .invoke thread command =>
    if s.occupied thread then
      none
    else
      let closure := Function.update s.closure s.pool.memory.history.nextId (some command)
      (s.stepPool (.step thread (.call .submit))).map ({ · with closure := closure })
  | .task worker =>
    match s.current worker with
    | none => none
    | some (f, command) => s.stepTask handler worker f command
  | .pool (.step thread choice) => if s.occupied thread then none else s.stepPool (.step thread choice)
  | .pool (.spurious thread) => s.stepPool (.spurious thread)

end AsyncState

def asyncSystem (cfg : Config) (C : Type) [Fintype C] [DecidableEq C] [DecidableEq ι] [IRegister ρ]
    (handler : Handler ι) (store : ι → ρ) : System (AsyncState cfg C ι ρ) (AsyncEvent cfg C) where
  init := .init store
  step := AsyncState.step handler

end Vosp
