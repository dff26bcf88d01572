import Vosp.Lib.System
import Vosp.Logger.Sink

/-!
This module contains the buffered text sink under any number of threads. A section under a shard mutex
is a step, and the section under the output mutex that may be nested in it is another one, so a thread
keeps the shard mutex between the two. The stream can fail and can be cleared at any moment.

`SinkHistory` remembers which record is where. No step reads it.
-/

namespace Vosp

structure Record where
  id : Nat
  producer : ThreadId
  entry : LogEntry
  deriving DecidableEq

def Record.text (record : Record) : Text := record.entry.line ++ [newline]

def render (records : List Record) : Text := records.flatMap Record.text

inductive SinkPc where
  | idle
  | lookup (record : Record)
  | register (record : Record)
  | append (record : Record) (shard : Nat)
  -- `flush_shard` of a write, with the shard mutex held.
  | spill (record : Record) (shard : Nat)
  | wrote (record : Record) (result : Bool)
  | snapshot
  | shards (rest : List Nat) (success : Bool)
  -- `flush_shard` of a flush, with the shard mutex held.
  | output (shard : Nat) (rest : List Nat) (success : Bool)
  | flushed (result : Bool)
  deriving DecidableEq

structure SinkHistory where
  calls : List Record
  returned : List (Record × Bool)
  -- What had returned when the current flush of a thread was called.
  before : Nat → List (Record × Bool)
  log : List Record
  lost : List Record
  pending : ThreadId → List Record

-- The records of a buffer reach the stream unless it has failed.
def SinkHistory.drain (h : SinkHistory) (producer : ThreadId) (failed : Bool) : SinkHistory :=
  { h with
    log := if failed then h.log else h.log ++ h.pending producer
    lost := if failed then h.lost ++ h.pending producer else h.lost
    pending := Function.update h.pending producer [] }

/--
The buffered sink under any number of threads.
-/
structure BufferedState where
  output : Stream
  shards : List Shard
  mutex : Nat → Option Nat
  -- The shard that a thread has cached for this sink.
  cache : Nat → Option Nat
  pc : Nat → SinkPc
  history : SinkHistory

inductive SinkEvent where
  | write (thread : Nat) (entry : LogEntry)
  | flush (thread : Nat)
  | step (thread : Nat)
  -- The thread uses another buffered sink, which takes its cache.
  | switch (thread : Nat)
  | fail
  | clear

namespace BufferedState

def init : BufferedState where
  output := {}
  shards := []
  mutex _ := none
  cache _ := none
  pc _ := .idle
  history := {
    calls := []
    returned := []
    before _ := []
    log := []
    lost := []
    pending _ := []
  }

def setPc (s : BufferedState) (thread : Nat) (pc : SinkPc) : BufferedState :=
  { s with pc := Function.update s.pc thread pc }

def setMutex (s : BufferedState) (shard : Nat) (owner : Option Nat) : BufferedState :=
  { s with mutex := Function.update s.mutex shard owner }

def setCache (s : BufferedState) (thread : Nat) (shard : Option Nat) : BufferedState :=
  { s with cache := Function.update s.cache thread shard }

def startWrite (s : BufferedState) (thread : Nat) (entry : LogEntry) : BufferedState :=
  let record := ⟨s.history.calls.length, some thread, entry⟩
  { s with history := { s.history with calls := s.history.calls ++ [record] } }.setPc thread (.lookup record)

def startFlush (s : BufferedState) (thread : Nat) : BufferedState :=
  let before := Function.update s.history.before thread s.history.returned
  { s with history := { s.history with before := before } }.setPc thread .snapshot

def returnWrite (s : BufferedState) (thread : Nat) (record : Record) (result : Bool) : BufferedState :=
  let returned := s.history.returned ++ [(record, result)]
  { s with history := { s.history with returned := returned } }.setPc thread .idle

def appendRecord (s : BufferedState) (record : Record) (i : Nat) (shard : Shard) : BufferedState :=
  let pending := Function.update s.history.pending record.producer
    (s.history.pending record.producer ++ [record])
  { s with
    shards := s.shards.set i (shard.append record.entry)
    history := { s.history with pending := pending } }

def outputShard (s : BufferedState) (i : Nat) (shard : Shard) : BufferedState :=
  let (_, shard', out) := shard.output s.output
  { s with
    output := out
    shards := s.shards.set i shard'
    history := s.history.drain shard.producer s.output.failed }

def advance (flushThreshold : Nat) (s : BufferedState) (thread : Nat) : Option BufferedState :=
  match s.pc thread with
  | .idle => none
  | .lookup record =>
    match s.cache thread with
    | some i => some (s.setPc thread (.append record i))
    | none => some (s.setPc thread (.register record))
  | .register record =>
    match registerShard flushThreshold s.shards (some thread) with
    | .ok (i, shards) => some (({ s with shards := shards }.setCache thread (some i)).setPc thread (.append record i))
    -- The write throws. It leaves its thread without a shard, so that what the thread does next another one can do.
    | .error _ => none
  | .append record i =>
    match s.mutex i, s.shards[i]? with
    | none, some shard =>
      let s := s.appendRecord record i shard
      if (shard.append record.entry).buffer.length < flushThreshold then
        some (s.setPc thread (.wrote record true))
      else
        some ((s.setMutex i (some thread)).setPc thread (.spill record i))
    | _, _ => none
  | .spill record i =>
    (s.shards[i]?).map fun shard =>
      let result := (shard.output s.output).1
      ((s.outputShard i shard).setMutex i none).setPc thread (.wrote record result)
  | .wrote record result => some (s.returnWrite thread record result)
  | .snapshot => some (s.setPc thread (.shards (List.range s.shards.length) true))
  | .shards [] success => some (s.setPc thread (.flushed (!s.output.failed && success)))
  | .shards (i :: rest) success =>
    match s.mutex i, s.shards[i]? with
    | none, some shard =>
      if shard.buffer.isEmpty then
        some (s.setPc thread (.shards rest success))
      else
        some ((s.setMutex i (some thread)).setPc thread (.output i rest success))
    | _, _ => none
  | .output i rest success =>
    (s.shards[i]?).map fun shard =>
      let result := (shard.output s.output).1
      ((s.outputShard i shard).setMutex i none).setPc thread (.shards rest (result && success))
  | .flushed _ => some (s.setPc thread .idle)

def step (flushThreshold : Nat) (s : BufferedState) (event : SinkEvent) : Option BufferedState :=
  match event with
  | .write thread entry =>
    match s.pc thread with
    | .idle => some (s.startWrite thread entry)
    | _ => none
  | .flush thread =>
    match s.pc thread with
    | .idle => some (s.startFlush thread)
    | _ => none
  | .step thread => s.advance flushThreshold thread
  | .switch thread =>
    match s.pc thread with
    | .idle => some (s.setCache thread none)
    | _ => none
  | .fail => some { s with output := { s.output with failed := true } }
  | .clear => some { s with output := { s.output with failed := false } }

end BufferedState

def bufferedSystem (flushThreshold : { n : Nat // 0 < n }) : System BufferedState SinkEvent where
  init := .init
  step := BufferedState.step flushThreshold

end Vosp
