import Vosp.Lib.Merge
import Vosp.Logger.BufferedSystem
import Vosp.Logger.ReadBack

/-!
This module contains the immediate text sink under any number of threads. Every operation on the stream is a step,
which can fail after any number of bytes. Between the writes the stream belongs to the caller, who can clear it.

`ImmediateHistory` remembers what each write has added to the stream. No step reads it.
-/

namespace Vosp

-- The bytes of the text that reach the stream. `taken` are those before an error.
def Stream.portion (out : Stream) (text : Text) (taken : Option Nat) : Text :=
  if out.failed then
    []
  else
    match taken with
    | none => text
    | some n => text.take n

def Stream.accept (out : Stream) (text : Text) (taken : Option Nat) : Stream where
  contents := out.contents ++ out.portion text taken
  failed := out.failed || taken.isSome

inductive ImmediatePc where
  | idle
  | lock (record : Record)
  | write (record : Record)
  | writeView (record : Record) (text : Text)
  | put (record : Record)
  | test (record : Record)
  | unlock (record : Record) (result : Bool)
  deriving DecidableEq

structure Written where
  record : Record
  text : Text
  result : Bool
  deriving DecidableEq

structure ImmediateHistory where
  calls : List Record
  -- The writes that have returned, in the order in which they had the mutex.
  written : List Written
  -- What the write with the mutex has added so far.
  current : Text

/--
The immediate sink under any number of threads.
-/
structure ImmediateState where
  output : Stream
  mutex : Option Nat
  pc : Nat → ImmediatePc
  history : ImmediateHistory

inductive ImmediateEvent where
  | write (thread : Nat) (entry : LogEntry)
  | step (thread : Nat) (taken : Option Nat)
  | fail
  | clear

namespace ImmediateState

def init : ImmediateState where
  output := {}
  mutex := none
  pc _ := .idle
  history := {
    calls := []
    written := []
    current := []
  }

def setPc (s : ImmediateState) (thread : Nat) (pc : ImmediatePc) : ImmediateState :=
  { s with pc := Function.update s.pc thread pc }

def startWrite (s : ImmediateState) (thread : Nat) (entry : LogEntry) : ImmediateState :=
  let record := ⟨s.history.calls.length, some thread, entry⟩
  { s with history := { s.history with calls := s.history.calls ++ [record] } }.setPc thread (.lock record)

def accept (s : ImmediateState) (text : Text) (taken : Option Nat) : ImmediateState :=
  { s with
    output := s.output.accept text taken
    history := { s.history with current := s.history.current ++ s.output.portion text taken } }

def returnWrite (s : ImmediateState) (thread : Nat) (record : Record) (result : Bool) : ImmediateState :=
  let written : Written := ⟨record, s.history.current, result⟩
  { s with
    mutex := none
    history := { s.history with
      written := s.history.written ++ [written]
      current := [] } }.setPc thread .idle

def advance (s : ImmediateState) (thread : Nat) (taken : Option Nat) : Option ImmediateState :=
  match s.pc thread with
  | .idle => none
  | .lock record =>
    match s.mutex with
    | none => some ({ s with mutex := some thread }.setPc thread (.write record))
    | some _ => none
  | .write record =>
    let prepared := prepareTextRecord record.entry
    let next := if prepared.messageIsBuffered then .test record else .writeView record prepared.message
    some ((s.accept prepared.prefixText taken).setPc thread next)
  | .writeView record text =>
    if text.isEmpty ∨ s.output.failed then
      some (s.setPc thread (.put record))
    else
      let chunkSize := min text.length maximumChunk
      some ((s.accept (text.take chunkSize) taken).setPc thread (.writeView record (text.drop chunkSize)))
  | .put record => some ((s.accept [newline] taken).setPc thread (.test record))
  | .test record => some (s.setPc thread (.unlock record (!s.output.failed)))
  | .unlock record result => some (s.returnWrite thread record result)

def step (s : ImmediateState) (event : ImmediateEvent) : Option ImmediateState :=
  match event with
  | .write thread entry =>
    match s.pc thread with
    | .idle => some (s.startWrite thread entry)
    | _ => none
  | .step thread taken => s.advance thread taken
  | .fail =>
    match s.mutex with
    | none => some { s with output := { s.output with failed := true } }
    | some _ => none
  | .clear =>
    match s.mutex with
    | none => some { s with output := { s.output with failed := false } }
    | some _ => none

end ImmediateState

def immediateSystem : System ImmediateState ImmediateEvent where
  init := .init
  step := ImmediateState.step

end Vosp
