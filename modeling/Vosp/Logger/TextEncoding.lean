import Vosp.Logger.ReadBack

/-!
This module contains `prepare_text_record` with the stores through its cursor and proves that the cursor
stays inside the array, that the record is the line of its entry and that both text sinks write the
same text, unless the buffered one throws because it cannot reserve its threshold.
-/

namespace Vosp

/--
The array of the record with the cursor, which may be one past the end.
-/
structure PrefixArray where
  bytes : Vector UInt8 prefixCapacity
  cursor : Nat
  inside : cursor ≤ prefixCapacity
  deriving DecidableEq

namespace PrefixArray

def empty : PrefixArray where
  bytes := Vector.replicate prefixCapacity 0
  cursor := 0
  inside := Nat.zero_le prefixCapacity

-- A store one past the end is undefined.
def store (array : PrefixArray) (c : UInt8) : Option PrefixArray :=
  if h : array.cursor < prefixCapacity then
    some { bytes := array.bytes.set array.cursor c h, cursor := array.cursor + 1, inside := h }
  else
    none

def append (array : PrefixArray) (text : Text) : Option PrefixArray :=
  match text with
  | [] => some array
  | c :: text => array.store c >>= fun array => array.append text

-- `std::to_chars` stores nothing and reports an error when the digits need more room.
def appendChars (array : PrefixArray) (value : UInt32) : Option PrefixArray :=
  let digits := toChars value
  if digits.length ≤ prefixCapacity - array.cursor then array.append digits else none

def text (array : PrefixArray) : Text := array.bytes.toList.take array.cursor

theorem length_text (array : PrefixArray) : array.text.length = array.cursor := by
  rw [text, List.length_take, Vector.length_toList]
  exact Nat.min_eq_left array.inside

theorem text_store {array : PrefixArray} (c : UInt8) (h : array.text.length < prefixCapacity)
    : ∃ array', array.store c = some array' ∧ array'.text = array.text ++ [c] := by
  rw [length_text] at h
  refine ⟨_, dif_pos h, ?_⟩
  have hlength : array.cursor < array.bytes.toList.length := by
    rw [Vector.length_toList]
    exact h
  simp only [text, Vector.toList_set]
  rw [List.take_add_one, List.take_set, List.set_eq_of_length_le (List.length_take_le _ _),
    List.getElem?_set_self hlength, Option.toList_some]

theorem text_append {array : PrefixArray} (text : Text)
    (h : array.text.length + text.length ≤ prefixCapacity)
    : ∃ array', array.append text = some array' ∧ array'.text = array.text ++ text := by
  induction text generalizing array with
  | nil => exact ⟨array, rfl, (List.append_nil _).symm⟩
  | cons c text ih =>
    rw [List.length_cons] at h
    obtain ⟨array', hstore, htext⟩ := array.text_store c (by omega)
    have hroom : array'.text.length + text.length ≤ prefixCapacity := by
      rw [htext, List.length_append, List.length_singleton]
      omega
    obtain ⟨array'', happend, htext'⟩ := ih hroom
    refine ⟨array'', ?_, ?_⟩
    . rw [append, hstore, Option.bind_eq_bind, Option.bind_some, happend]
    . rw [htext', htext, List.append_assoc, List.singleton_append]

theorem text_appendChars {array : PrefixArray} (value : UInt32)
    (h : array.text.length + (toChars value).length ≤ prefixCapacity)
    : ∃ array', array.appendChars value = some array' ∧ array'.text = array.text ++ toChars value := by
  have hroom : (toChars value).length ≤ prefixCapacity - array.cursor := by
    rw [length_text] at h
    omega
  obtain ⟨array', happend, htext⟩ := array.text_append (toChars value) h
  exact ⟨array', by rw [appendChars, if_pos hroom, happend], htext⟩

end PrefixArray

structure StoredTextRecord where
  array : PrefixArray
  message : Text
  messageIsBuffered : Bool

def storeHead (entry : LogEntry) : Option PrefixArray := do
  let array ← PrefixArray.empty.append (ascii "[")
  let array ← array.append entry.level.toString
  let array ← array.append (ascii "] [")
  let array ← array.append entry.error.category.toString
  let array ← array.append (ascii "] code=")
  let array ← array.appendChars entry.error.code
  array.append (ascii " message=")

-- `prepare_text_record` in the order of its stores. There is no result when one of them has no room.
def storeTextRecord (entry : LogEntry) : Option StoredTextRecord := do
  let array ← storeHead entry
  let message := entry.error.message
  let remaining := prefixCapacity - array.cursor
  if message.length < remaining then
    let array ← array.append message
    let array ← array.store newline
    return { array := array, message := message, messageIsBuffered := true }
  else
    return { array := array, message := message, messageIsBuffered := false }

structure StoredTextRecord.Stores (stored : StoredTextRecord) (record : PreparedTextRecord) : Prop where
  prefixText : stored.array.text = record.prefixText
  message : stored.message = record.message
  messageIsBuffered : stored.messageIsBuffered = record.messageIsBuffered

theorem storeHead_eq (entry : LogEntry) : ∃ array, storeHead entry = some array ∧ array.text = entry.head := by
  have hlength := entry.length_head_le
  simp only [LogEntry.head, List.length_append] at hlength
  have hempty : PrefixArray.empty.text = [] := List.take_zero
  obtain ⟨a₁, happend₁, htext₁⟩ := PrefixArray.empty.text_append (ascii "[")
    (by simp only [hempty, List.length_nil]; omega)
  rw [hempty, List.nil_append] at htext₁
  obtain ⟨a₂, happend₂, htext₂⟩ := a₁.text_append entry.level.toString (by rw [htext₁]; omega)
  rw [htext₁] at htext₂
  obtain ⟨a₃, happend₃, htext₃⟩ := a₂.text_append (ascii "] [")
    (by simp only [htext₂, List.length_append]; omega)
  rw [htext₂] at htext₃
  obtain ⟨a₄, happend₄, htext₄⟩ := a₃.text_append entry.error.category.toString
    (by simp only [htext₃, List.length_append]; omega)
  rw [htext₃] at htext₄
  obtain ⟨a₅, happend₅, htext₅⟩ := a₄.text_append (ascii "] code=")
    (by simp only [htext₄, List.length_append]; omega)
  rw [htext₄] at htext₅
  obtain ⟨a₆, happend₆, htext₆⟩ := a₅.text_appendChars entry.error.code
    (by simp only [htext₅, List.length_append]; omega)
  rw [htext₅] at htext₆
  obtain ⟨a₇, happend₇, htext₇⟩ := a₆.text_append (ascii " message=")
    (by simp only [htext₆, List.length_append]; omega)
  refine ⟨a₇, ?_, by rw [htext₇, htext₆, LogEntry.head]⟩
  rw [storeHead, Option.bind_eq_bind]
  apply Option.bind_eq_some_iff.mpr ⟨a₁, happend₁, ?_⟩
  apply Option.bind_eq_some_iff.mpr ⟨a₂, happend₂, ?_⟩
  apply Option.bind_eq_some_iff.mpr ⟨a₃, happend₃, ?_⟩
  apply Option.bind_eq_some_iff.mpr ⟨a₄, happend₄, ?_⟩
  apply Option.bind_eq_some_iff.mpr ⟨a₅, happend₅, ?_⟩
  exact Option.bind_eq_some_iff.mpr ⟨a₆, happend₆, happend₇⟩

theorem storeTextRecord_stores (entry : LogEntry)
    : ∃ stored, storeTextRecord entry = some stored ∧ stored.Stores (prepareTextRecord entry) := by
  obtain ⟨array, hhead, htext⟩ := storeHead_eq entry
  have hcursor := array.length_text
  rw [htext] at hcursor
  have hinside := array.inside
  unfold storeTextRecord prepareTextRecord
  simp only [hhead, Option.bind_eq_bind, Option.bind_some, ← hcursor]
  split
  . next hmessage =>
    -- The newline has room because the message is shorter than what remains.
    obtain ⟨array', happend, htext'⟩ := array.text_append entry.error.message
      (by rw [htext]; omega)
    have hroom : array'.text.length < prefixCapacity := by
      rw [htext', htext, List.length_append]
      omega
    obtain ⟨array'', hstore, htext''⟩ := array'.text_store newline hroom
    refine ⟨⟨array'', entry.error.message, true⟩, ?_, ?_, rfl, rfl⟩
    . simp only [happend, hstore, Option.bind_some]
      rfl
    . rw [htext'', htext', htext]
  . exact ⟨⟨array, entry.error.message, false⟩, rfl, htext, rfl, rfl⟩

-- `write_view` of the stream when one call takes at most the given number of characters.
def Stream.writeChunks (maximum : { n : Nat // 0 < n }) (out : Stream) (text : Text) : Stream :=
  if text.isEmpty ∨ out.failed then
    out
  else
    let chunkSize := min text.length maximum
    (out.write (text.take chunkSize)).writeChunks maximum (text.drop chunkSize)
termination_by text.length
decreasing_by
  rename_i h
  simp only [List.isEmpty_iff, not_or, ← List.length_pos_iff] at h
  have := maximum.2
  rw [List.length_drop]
  omega

theorem Stream.writeChunks_eq (maximum : { n : Nat // 0 < n }) (out : Stream) (text : Text)
    : out.writeChunks maximum text = out.write text := by
  fun_induction Stream.writeChunks maximum out text with
  | case1 out text h =>
    rcases h with hempty | hfailed
    . rw [List.isEmpty_iff.mp hempty, write_nil]
    . rw [write_of_failed hfailed]
  | case2 out text h chunkSize ih => rw [ih, write_write, List.take_append_drop]

def StoredTextRecord.text (record : StoredTextRecord) : Text :=
  record.array.text ++ if record.messageIsBuffered then [] else record.message ++ [newline]

theorem StoredTextRecord.Stores.text_eq {stored : StoredTextRecord} {record : PreparedTextRecord}
    (h : stored.Stores record)
    : stored.text = record.text := by
  rw [StoredTextRecord.text, PreparedTextRecord.text, h.prefixText, h.message, h.messageIsBuffered]

namespace ImmediateSink

def writeStored (maximum : { n : Nat // 0 < n }) (out : Stream) (entry : LogEntry) : Option (Bool × Stream) := do
  let record ← storeTextRecord entry
  let out := out.write record.array.text
  let out := if record.messageIsBuffered then out else (out.writeChunks maximum record.message).put newline
  return (!out.failed, out)

def writeAllStored (maximum : { n : Nat // 0 < n }) (out : Stream) (entries : List LogEntry) : Option Stream :=
  entries.foldlM (fun out entry => (writeStored maximum out entry).map (·.2)) out

theorem writeStored_eq (maximum : { n : Nat // 0 < n }) (out : Stream) (entry : LogEntry)
    : writeStored maximum out entry = some (write out entry) := by
  obtain ⟨stored, hstored, h⟩ := storeTextRecord_stores entry
  simp only [writeStored, hstored, Option.bind_eq_bind, Option.bind_some, h.prefixText, h.message,
    h.messageIsBuffered, Stream.writeChunks_eq, write, Stream.writeView_eq]
  rfl

theorem writeAllStored_eq (maximum : { n : Nat // 0 < n }) (out : Stream) (entries : List LogEntry)
    : writeAllStored maximum out entries = some (writeAll out entries) := by
  induction entries generalizing out with
  | nil => rfl
  | cons entry entries ih =>
    rw [writeAllStored, List.foldlM_cons, writeStored_eq, Option.map_some, Option.bind_eq_bind,
      Option.bind_some]
    exact ih _

end ImmediateSink

def Shard.appendStored (shard : Shard) (record : StoredTextRecord) : Shard :=
  let buffer := shard.buffer ++ record.array.text
  { shard with buffer := if record.messageIsBuffered then buffer else buffer ++ record.message ++ [newline] }

theorem Shard.appendStored_eq (shard : Shard) {entry : LogEntry} {stored : StoredTextRecord}
    (h : stored.Stores (prepareTextRecord entry))
    : shard.appendStored stored = shard.append entry := by
  simp only [appendStored, h.prefixText, h.message, h.messageIsBuffered, append]

namespace BufferedSink

def writeStored (sink : BufferedSink) (producer : ThreadId) (entry : LogEntry)
    : Option (Except LengthError (Bool × BufferedSink)) := do
  let record ← storeTextRecord entry
  match registerShard sink.flushThreshold sink.shards producer with
  | .error error => return .error error
  | .ok (i, shards) =>
    let shard := ((shards[i]?).getD { producer := producer }).appendStored record
    if shard.buffer.length < sink.flushThreshold then
      return .ok (true, { sink with shards := shards.set i shard })
    else
      let (success, shard, out) := shard.flush sink.output
      return .ok (success, { sink with shards := shards.set i shard, output := out })

def writeAllStored (sink : BufferedSink) (producer : ThreadId) (entries : List LogEntry)
    : Option (Except LengthError BufferedSink) :=
  match entries with
  | [] => some (.ok sink)
  | entry :: entries => do
    match ← sink.writeStored producer entry with
    | .error error => return .error error
    | .ok (_, sink) => sink.writeAllStored producer entries

theorem writeStored_eq (sink : BufferedSink) (producer : ThreadId) (entry : LogEntry)
    : sink.writeStored producer entry = some (sink.write producer entry) := by
  obtain ⟨stored, hstored, h⟩ := storeTextRecord_stores entry
  simp only [writeStored, hstored, Shard.appendStored_eq _ h, Option.bind_eq_bind, Option.bind_some, write]
  cases registerShard sink.flushThreshold sink.shards producer with
  | error error => rfl
  | ok registered =>
    simp only [bind, Except.bind]
    split <;> rfl

theorem writeAllStored_eq (sink : BufferedSink) (producer : ThreadId) (entries : List LogEntry)
    : sink.writeAllStored producer entries = some (sink.writeAll producer entries) := by
  induction entries generalizing sink with
  | nil => rfl
  | cons entry entries ih =>
    rw [writeAllStored, writeStored_eq, writeAll_cons]
    cases sink.write producer entry with
    | error error => rfl
    | ok result => exact ih result.2

theorem eq_of_create {out : Stream} {flushThreshold : Nat} {sink : BufferedSink}
    (h : create out flushThreshold = .ok sink)
    : sink.output = out ∧ sink.flushThreshold = flushThreshold ∧ sink.shards = [] := by
  unfold create at h
  split at h
  . cases h
  . obtain rfl := Except.ok.inj h
    exact ⟨rfl, rfl, rfl⟩

end BufferedSink

theorem text_records_encoded_identically {out : Stream} {flushThreshold : Nat} {sink : BufferedSink}
    (hhealthy : out.failed = false) (hcreate : BufferedSink.create out flushThreshold = .ok sink)
    (maximum : { n : Nat // 0 < n }) (producer : ThreadId) (entries : List LogEntry)
    : (∀ entry, ∃ record, storeTextRecord entry = some record ∧
        record.text = ascii "[" ++ entry.level.toString ++ ascii "] [" ++ entry.error.category.toString ++
          ascii "] code=" ++ toChars entry.error.code ++ ascii " message=" ++ entry.error.message ++
          ascii "\n") ∧
      ∃ immediate result, ImmediateSink.writeAllStored maximum out entries = some immediate ∧
        sink.writeAllStored producer entries = some result ∧
        (result = .error .mk ↔ maximumSize < flushThreshold ∧ entries ≠ []) ∧
        (∀ buffered, result = .ok buffered → immediate.contents = buffered.flush.2.output.contents) ∧
        immediate.contents = out.contents ++ logText entries := by
  constructor
  . intro entry
    obtain ⟨record, hrecord, h⟩ := storeTextRecord_stores entry
    exact ⟨record, hrecord, h.text_eq.trans (text_prepareTextRecord entry)⟩
  . obtain ⟨houtput, hthreshold, hshards⟩ := BufferedSink.eq_of_create hcreate
    have himmediate : (ImmediateSink.writeAll out entries).contents = out.contents ++ logText entries := by
      rw [ImmediateSink.writeAll_eq]
      exact Stream.contents_write hhealthy _
    refine ⟨_, _, ImmediateSink.writeAllStored_eq maximum out entries, sink.writeAllStored_eq producer entries, ?_⟩
    cases sink.writes (by rw [houtput, hhealthy]) hshards producer entries with
    | throws hlt hentries hwrites =>
      rw [hthreshold] at hlt
      rw [hwrites]
      exact ⟨iff_of_true rfl ⟨hlt, hentries⟩, nofun, himmediate⟩
    | ok sink' hreserves hwrites hflush =>
      rw [hthreshold] at hreserves
      rw [houtput] at hflush
      rw [hwrites]
      refine ⟨iff_of_false nofun ?_, ?_, himmediate⟩
      . rintro ⟨hlt, hentries⟩
        exact hentries (hreserves.resolve_left (Nat.not_le.mpr hlt))
      . intro buffered hbuffered
        obtain rfl := Except.ok.inj hbuffered
        rw [himmediate, hflush]

-- The message goes beyond the array, so it is written apart from the prefix and in several chunks.
def longEntry : LogEntry where
  error := { category := .network, code := 7, message := List.replicate 600 120 }

theorem text_records_encoded_identically_long
    : (∃ record, storeTextRecord longEntry = some record ∧ record.messageIsBuffered = false ∧
        record.text = longEntry.head ++ List.replicate 600 120 ++ ascii "\n") ∧
      ∃ immediate buffered,
        ImmediateSink.writeAllStored ⟨250, by decide⟩ { contents := ascii "log\n" }
          [longEntry, plainEntry "message", longEntry] = some immediate ∧
        BufferedSink.writeAllStored ⟨{ contents := ascii "log\n" }, 700, [], by decide⟩ (some 0)
          [longEntry, plainEntry "message", longEntry] = some (.ok buffered) ∧
        immediate.contents = buffered.flush.2.output.contents ∧
        immediate.contents = ascii "log\n" ++ logText [longEntry, plainEntry "message", longEntry] := by
  have hcreate : BufferedSink.create { contents := ascii "log\n" } 700 =
      .ok ⟨{ contents := ascii "log\n" }, 700, [], by decide⟩ := rfl
  obtain ⟨hrecords, immediate, result, himmediate, hresult, herror, hequal, htext⟩ :=
    text_records_encoded_identically rfl hcreate ⟨250, by decide⟩ (some 0)
      [longEntry, plainEntry "message", longEntry]
  constructor
  . obtain ⟨record, hrecord, hline⟩ := hrecords longEntry
    obtain ⟨stored, hstored, h⟩ := storeTextRecord_stores longEntry
    obtain rfl := Option.some.inj (hstored.symm.trans hrecord)
    have hlong : ¬longEntry.error.message.length < prefixCapacity - longEntry.head.length := by
      simp only [longEntry, List.length_replicate, prefixCapacity]
      omega
    have hseparate : (prepareTextRecord longEntry).messageIsBuffered = false := by
      rw [prepareTextRecord, dif_neg hlong]
    exact ⟨stored, hstored, h.messageIsBuffered.trans hseparate, hline⟩
  . cases result with
    | error error =>
      cases error
      have hlt := (herror.mp rfl).1
      rw [maximumSize] at hlt
      omega
    | ok buffered => exact ⟨immediate, buffered, himmediate, hresult, hequal buffered rfl, htext⟩

end Vosp
