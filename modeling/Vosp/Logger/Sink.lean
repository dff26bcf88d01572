import Mathlib.Algebra.Group.Nat.Defs
import Vosp.Logger.TextRecord

/-!
This module contains the two text sinks as seen by a single thread: the immediate one, and the buffered
one with its sections under the mutexes, which the concurrent model of the buffered sink shares.
-/

namespace Vosp

-- The largest number of characters that one call of `std::ostream::write` takes.
def maximumChunk : Nat := 2 ^ 63 - 1

def Stream.writeView (out : Stream) (text : Text) : Stream :=
  if text.isEmpty ∨ out.failed then
    out
  else
    let chunkSize := min text.length maximumChunk
    (out.write (text.take chunkSize)).writeView (text.drop chunkSize)
termination_by text.length
decreasing_by
  rename_i h
  simp only [List.isEmpty_iff, not_or, ← List.length_pos_iff] at h
  simp only [List.length_drop, maximumChunk]
  omega

namespace ImmediateSink

def write (out : Stream) (entry : LogEntry) : Bool × Stream :=
  let record := prepareTextRecord entry
  let out := out.write record.prefixText
  let out := if record.messageIsBuffered then out else (out.writeView record.message).put newline
  (!out.failed, out)

def writeAll (out : Stream) (entries : List LogEntry) : Stream :=
  entries.foldl (fun out entry => (write out entry).2) out

end ImmediateSink

structure Shard where
  producer : ThreadId
  buffer : Text := []
  deriving DecidableEq

namespace Shard

def append (shard : Shard) (entry : LogEntry) : Shard :=
  let record := prepareTextRecord entry
  let buffer := shard.buffer ++ record.prefixText
  { shard with buffer := if record.messageIsBuffered then buffer else buffer ++ record.message ++ [newline] }

def output (shard : Shard) (out : Stream) : Bool × Shard × Stream :=
  let out := out.write shard.buffer
  (!out.failed, { shard with buffer := [] }, out)

def flush (shard : Shard) (out : Stream) : Bool × Shard × Stream :=
  if shard.buffer.isEmpty then (true, shard, out) else shard.output out

end Shard

/--
What `std::string::reserve` throws.
-/
inductive LengthError where
  | mk
  deriving DecidableEq

-- `std::string::max_size()` of a 64-bit system. Other libraries have a smaller one, and no proof uses the value.
def maximumSize : Nat := 2 ^ 63 - 1

def Shard.create (producer : ThreadId) (capacity : Nat) : Except LengthError Shard :=
  if capacity ≤ maximumSize then .ok { producer := producer } else .error .mk

-- The section of `current_thread_shard` under the registry mutex.
def registerShard (flushThreshold : Nat) (shards : List Shard) (producer : ThreadId)
    : Except LengthError (Nat × List Shard) :=
  match shards.findIdx? (·.producer = producer) with
  | some i => .ok (i, shards)
  | none => (Shard.create producer flushThreshold).map fun shard => (shards.length, shards ++ [shard])

structure BufferedSink where
  output : Stream
  flushThreshold : Nat
  shards : List Shard
  flushThreshold_pos : 0 < flushThreshold

namespace BufferedSink

def create (output : Stream) (flushThreshold : Nat := 64 * 1024) : Except InvalidArgument BufferedSink :=
  if h : flushThreshold = 0 then
    .error ⟨"flush threshold must be greater than zero"⟩
  else
    .ok {
      output := output
      flushThreshold := flushThreshold
      shards := []
      flushThreshold_pos := Nat.pos_of_ne_zero h
    }

def write (sink : BufferedSink) (producer : ThreadId) (entry : LogEntry)
    : Except LengthError (Bool × BufferedSink) := do
  let (i, shards) ← registerShard sink.flushThreshold sink.shards producer
  let shard := ((shards[i]?).getD { producer := producer }).append entry
  if shard.buffer.length < sink.flushThreshold then
    return (true, { sink with shards := shards.set i shard })
  else
    let (success, shard, out) := shard.flush sink.output
    return (success, { sink with shards := shards.set i shard, output := out })

def flush (sink : BufferedSink) : Bool × BufferedSink :=
  let (success, shards, out) := flushAll sink.shards sink.output true
  (!out.failed && success, { sink with shards := shards, output := out })
where
  flushAll (shards : List Shard) (out : Stream) (success : Bool) : Bool × List Shard × Stream :=
    match shards with
    | [] => (success, [], out)
    | shard :: rest =>
      let (flushed, shard, out) := shard.flush out
      let (success, rest, out) := flushAll rest out (flushed && success)
      (success, shard :: rest, out)

def writeAll (sink : BufferedSink) (producer : ThreadId) (entries : List LogEntry) : Except LengthError BufferedSink :=
  entries.foldlM (fun sink entry => (sink.write producer entry).map (·.2)) sink

end BufferedSink

theorem Stream.writeView_eq (out : Stream) (text : Text) : out.writeView text = out.write text := by
  induction out, text using Stream.writeView.induct with
  | case1 out text h =>
    rw [writeView, if_pos h]
    rcases h with hempty | hfailed
    . rw [List.isEmpty_iff.mp hempty, write_nil]
    . rw [write_of_failed hfailed]
  | case2 out text h chunkSize ih =>
    rw [writeView, if_neg h, ih, write_write, List.take_append_drop]

theorem ImmediateSink.write_eq (out : Stream) (entry : LogEntry)
    : write out entry = (!out.failed, out.write (entry.line ++ [newline])) := by
  rw [← text_prepareTextRecord, PreparedTextRecord.text, ← Stream.write_write]
  unfold write
  cases hbuffered : (prepareTextRecord entry).messageIsBuffered with
  | true => simp [hbuffered]
  | false => simp [hbuffered, Stream.put, Stream.writeView_eq, Stream.write_write]

theorem ImmediateSink.writeAll_eq (out : Stream) (entries : List LogEntry)
    : writeAll out entries = out.write (entries.flatMap fun entry => entry.line ++ [newline]) := by
  induction entries generalizing out with
  | nil => simp [writeAll]
  | cons entry entries ih =>
    have hstep : writeAll out (entry :: entries) = writeAll (write out entry).2 entries := rfl
    rw [hstep, ih, write_eq, Stream.write_write, List.flatMap_cons]

theorem Shard.buffer_append (shard : Shard) (entry : LogEntry)
    : (shard.append entry).buffer = shard.buffer ++ (entry.line ++ [newline]) := by
  rw [← text_prepareTextRecord, PreparedTextRecord.text]
  unfold append
  cases hbuffered : (prepareTextRecord entry).messageIsBuffered with
  | true => simp [hbuffered]
  | false => simp [hbuffered]

@[simp]
theorem Shard.producer_append (shard : Shard) (entry : LogEntry)
    : (shard.append entry).producer = shard.producer := by
  rfl

theorem Shard.append_eq (shard : Shard) (entry : LogEntry)
    : shard.append entry = { shard with buffer := shard.buffer ++ (entry.line ++ [newline]) } := by
  rw [← buffer_append]
  rfl

theorem Shard.flush_eq {shard : Shard} {out : Stream} (h : out.failed = false)
    : shard.flush out = (true, { shard with buffer := [] }, out.write shard.buffer) := by
  unfold flush output
  split
  . next hempty =>
    rw [List.isEmpty_iff.mp hempty, Stream.write_nil, ← List.isEmpty_iff.mp hempty]
  . simp [h]

end Vosp
