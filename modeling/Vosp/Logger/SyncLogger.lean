import Vosp.Lib.Linear
import Vosp.Lib.System
import Vosp.Logger.Basic

/-!
This module contains the synchronous `Logger`: any number of calls attach sinks, detach them and publish
records. A step is one access to the shared state or one operation on a mutex. A sink callback may call the
logger as well, so every call has its own program counter, also when its thread is in another call.

`History` is never read by a step.
-/

namespace Vosp.SyncLogger

abbrev LogSink := Nat

structure SinkSlot where
  sink : LogSink
  owner : Option LogSink
  deriving DecidableEq

structure Call where
  thread : Nat
  number : Nat
  deriving DecidableEq

inductive Request where
  | attach (sink : LogSink)
  -- A `shared_ptr` can be null.
  | attachShared (sink : Option LogSink)
  | detach (sink : LogSink)
  | write (level : Level) (error : Error)

/--
What a call does to the list of the attached sinks.
-/
inductive Operation where
  | attach (slot : Option SinkSlot)
  | detach (sink : LogSink)
  | write
  deriving DecidableEq

inductive Response where
  | result (result : Bool)
  | selected (slots : List SinkSlot)
  deriving DecidableEq

/--
What a call of `write` has selected, and how.
-/
inductive Selection where
  | empty
  | fast (sink : LogSink)
  | single (slot : SinkSlot)
  | several (slots : List SinkSlot)
  deriving DecidableEq

-- The fast path only knows the address of the sink, and takes it for an externally owned one.
def Selection.slots (selection : Selection) : List SinkSlot :=
  match selection with
  | .empty => []
  | .fast sink => [⟨sink, none⟩]
  | .single slot => [slot]
  | .several slots => slots

inductive Outcome where
  | result (result : Bool)
  | filtered
  | wrote (selection : Selection) (accepted : Option Bool)
  deriving DecidableEq

inductive CallPc where
  | idle
  | attachNull
  | attachLock (slot : SinkSlot)
  | attachTest (slot : SinkSlot)
  | attachPush (slot : SinkSlot)
  | detachLock (sink : LogSink)
  | detachErase (sink : LogSink)
  | refresh (operation : Operation)
  | unlock (operation : Operation) (result : Bool)
  | leave (operation : Operation) (result : Bool)
  | write (level : Level) (error : Error)
  | stamp (level : Level) (error : Error)
  | load (entry : LogEntry)
  | readLock (entry : LogEntry)
  | read (entry : LogEntry)
  | readUnlock (entry : LogEntry) (selection : Selection)
  | callbackLock (entry : LogEntry) (selection : Selection)
  | deliver (entry : LogEntry) (selection : Selection) (remaining : List LogSink) (accepted : Bool)
  | inCallback (entry : LogEntry) (selection : Selection) (remaining : List LogSink) (accepted : Bool)
  | callbackUnlock (selection : Selection) (accepted : Option Bool)
  | returned (operation : Operation) (outcome : Outcome)
  deriving DecidableEq

structure History where
  log : List (Linear.Entry Call Operation Response)
  first : Call → Nat
  last : Call → Nat
  callbacks : Call → List (LogSink × LogEntry)

structure Memory where
  sinks : List SinkSlot
  singleNonOwningSink : Option LogSink
  owner : Option Call
  -- The calls that hold the recursive `callback_mutex_`.
  callbackOwners : List Call
  history : History

def refreshSingleSinkFastPath (sinks : List SinkSlot) : Option LogSink :=
  match sinks with
  | [slot] => if slot.owner.isNone then some slot.sink else none
  | _ => none

-- What `write_entry` copies from `sinks_` under the mutex.
def select (sinks : List SinkSlot) : Selection :=
  match sinks with
  | [] => .empty
  | [slot] => .single slot
  | _ => .several sinks

namespace Memory

def acquire (m : Memory) (call : Call) : Option Memory :=
  if m.owner = none then
    some { m with owner := some call }
  else
    none

def release (m : Memory) : Memory := { m with owner := none }

def acquireCallback (m : Memory) (call : Call) : Option Memory :=
  if ∀ other ∈ m.callbackOwners, other.thread = call.thread then
    some { m with callbackOwners := call :: m.callbackOwners }
  else
    none

def releaseCallback (m : Memory) (call : Call) : Memory := { m with callbackOwners := m.callbackOwners.erase call }

def effect (m : Memory) (call : Call) (operation : Operation) (response : Response) : Memory :=
  { m with history := { m.history with log := m.history.log ++ [⟨call, operation, response⟩] } }

def start (m : Memory) (call : Call) : Memory :=
  { m with history := { m.history with first := Function.update m.history.first call m.history.log.length } }

def finish (m : Memory) (call : Call) : Memory :=
  { m with history := { m.history with last := Function.update m.history.last call m.history.log.length } }

def invoke (m : Memory) (call : Call) (sink : LogSink) (entry : LogEntry) : Memory :=
  { m with
    history := { m.history with
      callbacks := Function.update m.history.callbacks call (m.history.callbacks call ++ [(sink, entry)]) } }

end Memory

structure Config where
  policy : LoggerPolicy
  metadata : LoggerMetadataPolicy
  serializesCallbacks : Bool

def CallPc.step (config : Config) (m : Memory) (call : Call) (now : TimePoint) (pc : CallPc)
    : Option (Memory × CallPc) :=
  match pc with
  | .idle => none
  | .attachNull => some (m.effect call (.attach none) (.result false), .leave (.attach none) false)
  | .attachLock slot => (m.acquire call).map (·, .attachTest slot)
  | .attachTest slot =>
    if m.sinks.any fun registered => registered.sink = slot.sink then
      some (m.effect call (.attach (some slot)) (.result false), .unlock (.attach (some slot)) false)
    else
      some (m, .attachPush slot)
  | .attachPush slot => some ({ m with sinks := m.sinks ++ [slot] }, .refresh (.attach (some slot)))
  | .detachLock sink => (m.acquire call).map (·, .detachErase sink)
  | .detachErase sink =>
    let sinks := m.sinks.filter fun slot => slot.sink ≠ sink
    if m.sinks.length - sinks.length = 0 then
      some (m.effect call (.detach sink) (.result false), .unlock (.detach sink) false)
    else
      some ({ m with sinks := sinks }, .refresh (.detach sink))
  | .refresh operation =>
    let m := { m with singleNonOwningSink := refreshSingleSinkFastPath m.sinks }
    some (m.effect call operation (.result true), .unlock operation true)
  | .unlock operation result => some (m.release.finish call, .returned operation (.result result))
  | .leave operation result => some (m.finish call, .returned operation (.result result))
  | .write level error =>
    if config.policy level then
      some (m, .stamp level error)
    else
      some (m.finish call, .returned .write .filtered)
  | .stamp level error =>
    some (m, .load {
      timestamp := config.metadata.timestamp now
      threadId := config.metadata.threadId (some call.thread)
      level := level
      error := error
    })
  | .load entry =>
    match m.singleNonOwningSink with
    | some sink =>
      let selection := .fast sink
      some (m.effect call .write (.selected selection.slots), .callbackLock entry selection)
    | none => some (m, .readLock entry)
  | .readLock entry => (m.acquire call).map (·, .read entry)
  | .read entry =>
    let selection := select m.sinks
    some (m.effect call .write (.selected selection.slots), .readUnlock entry selection)
  | .readUnlock entry selection =>
    if selection = .empty then
      some (m.release.finish call, .returned .write (.wrote selection (some false)))
    else
      some (m.release, .callbackLock entry selection)
  | .callbackLock entry selection =>
    let pc := .deliver entry selection (selection.slots.map SinkSlot.sink) true
    if config.serializesCallbacks then (m.acquireCallback call).map (·, pc) else some (m, pc)
  | .deliver entry selection (sink :: remaining) accepted =>
    some (m.invoke call sink entry, .inCallback entry selection remaining accepted)
  | .deliver _ selection [] accepted => some (m, .callbackUnlock selection (some accepted))
  | .inCallback _ _ _ _ => none
  | .callbackUnlock selection accepted =>
    let m := if config.serializesCallbacks then m.releaseCallback call else m
    some (m.finish call, .returned .write (.wrote selection accepted))
  | .returned _ _ => none

structure State where
  memory : Memory
  call : Call → CallPc

inductive Event where
  | call (call : Call) (request : Request)
  | step (call : Call) (now : TimePoint)
  -- A sink callback returns, or throws.
  | finish (call : Call) (accepted : Option Bool)

def Request.entry (request : Request) : CallPc :=
  match request with
  | .attach sink => .attachLock ⟨sink, none⟩
  | .attachShared none => .attachNull
  | .attachShared (some sink) => .attachLock ⟨sink, some sink⟩
  | .detach sink => .detachLock sink
  | .write level error => .write level error

namespace State

def init : State where
  memory := {
    sinks := []
    singleNonOwningSink := none
    owner := none
    callbackOwners := []
    history := {
      log := []
      first _ := 0
      last _ := 0
      callbacks _ := []
    }
  }
  call _ := .idle

def setCall (s : State) (call : Call) (pc : CallPc) : State := { s with call := Function.update s.call call pc }

def stepFinish (s : State) (call : Call) (accepted : Option Bool) : Option State :=
  match s.call call with
  | .inCallback entry selection remaining soFar =>
    match accepted with
    | some accepted => some (s.setCall call (.deliver entry selection remaining (accepted && soFar)))
    | none => some (s.setCall call (.callbackUnlock selection none))
  | _ => none

def step (config : Config) (s : State) (event : Event) : Option State :=
  match event with
  | .call call request =>
    if s.call call = .idle then
      some ({ s with memory := s.memory.start call }.setCall call request.entry)
    else
      none
  | .step call now =>
    (CallPc.step config s.memory call now (s.call call)).map fun (m, pc) => { s with memory := m }.setCall call pc
  | .finish call accepted => s.stepFinish call accepted

end State

def system (config : Config) : System State Event where
  init := .init
  step := State.step config

end Vosp.SyncLogger
