import Mathlib.Data.List.TakeDrop
import Vosp.Logger.Sink

/-!
This module says when the log that a single thread writes through a text sink can be read back. The
reader cuts the log into lines and takes each line apart at the delimiters of the format. A buffered
sink that cannot reserve its threshold throws at the first record, and there is no log.
-/

namespace Vosp

structure RecordFields where
  level : Text
  category : Text
  code : Nat
  message : Text
  deriving DecidableEq

def LogEntry.fields (entry : LogEntry) : RecordFields where
  level := entry.level.toString
  category := entry.error.category.toString
  code := entry.error.code.toNat
  message := entry.error.message

def rightBracket : UInt8 := 93

def space : UInt8 := 32

def readField (mark : Text) (stop : UInt8) (text : Text) : Option (Text × Text) :=
  (text.dropPrefix? mark).map fun rest => rest.span (· ≠ stop)

def readCode (digits : Text) : Nat := Nat.ofDigitChars 10 (digits.map fun c => Char.ofNat c.toNat) 0

def readLine (text : Text) : Option RecordFields := do
  let (level, text) ← readField (ascii "[") rightBracket text
  let (category, text) ← readField (ascii "] [") rightBracket text
  let (digits, text) ← readField (ascii "] code=") space text
  let message ← text.dropPrefix? (ascii " message=")
  return ⟨level, category, readCode digits, message⟩

def ReadsBack (log : Text) (entries : List LogEntry) : Prop :=
  (lines newline log).map readLine = entries.map fun entry => some entry.fields

def SingleLine (entries : List LogEntry) : Prop := ∀ entry ∈ entries, newline ∉ entry.error.message

inductive TextWriter where
  | immediate
  | buffered (flushThreshold : { n : Nat // 0 < n }) (producer : ThreadId)

def BufferedSink.empty (flushThreshold : { n : Nat // 0 < n }) : BufferedSink where
  output := {}
  flushThreshold := flushThreshold
  shards := []
  flushThreshold_pos := flushThreshold.2

def TextWriter.log (writer : TextWriter) (entries : List LogEntry) : Except LengthError Text :=
  match writer with
  | .immediate => .ok (ImmediateSink.writeAll {} entries).contents
  | .buffered flushThreshold producer =>
    ((BufferedSink.empty flushThreshold).writeAll producer entries).map fun sink => sink.flush.2.output.contents

def TextWriter.capacity (writer : TextWriter) : Nat :=
  match writer with
  | .immediate => 0
  | .buffered flushThreshold _ => flushThreshold

theorem dropPrefix?_append (mark rest : Text) : (mark ++ rest).dropPrefix? mark = some rest := by
  rw [List.dropPrefix?_eq_some_iff]
  exact ⟨mark, rfl, by simp⟩

theorem span_append {stop : UInt8} {word rest : Text} (h : stop ∉ word) (hrest : rest.head? = some stop)
    : (word ++ rest).span (· ≠ stop) = (word, rest) := by
  have hword : ∀ c ∈ word, (decide (c ≠ stop)) = true := by
    intro c hc
    apply decide_eq_true
    rintro rfl
    exact h hc
  obtain ⟨tail, rfl⟩ := List.head?_eq_some_iff.mp hrest
  rw [List.span_eq_takeWhile_dropWhile, List.takeWhile_append_of_pos hword,
    List.dropWhile_append_of_pos hword]
  simp

theorem readField_append {mark word rest : Text} {stop : UInt8} (h : stop ∉ word)
    (hrest : rest.head? = some stop)
    : readField mark stop (mark ++ (word ++ rest)) = some (word, rest) := by
  rw [readField, dropPrefix?_append, Option.map_some, span_append h hrest]

theorem Level.not_mem_toString (level : Level) : newline ∉ level.toString ∧ rightBracket ∉ level.toString := by
  cases level with
  | unnamed value =>
    have h : newline ∉ ascii "UNKNOWN" ∧ rightBracket ∉ ascii "UNKNOWN" := by decide
    exact h
  | _ => decide

theorem Category.not_mem_toString (category : Category)
    : newline ∉ category.toString ∧ rightBracket ∉ category.toString := by
  cases category with
  | unnamed value =>
    have h : newline ∉ ascii "UNKNOWN" ∧ rightBracket ∉ ascii "UNKNOWN" := by decide
    exact h
  | _ => decide

theorem toNat_of_mem_toDigits {n : Nat} {c : Char} (h : c ∈ Nat.toDigits 10 n) : 48 ≤ c.toNat ∧ c.toNat ≤ 57 :=
  Char.isDigit_iff_toNat.mp (Nat.isDigit_of_mem_toDigits (Nat.zero_lt_succ 9) (Nat.le_refl 10) h)

theorem toNat_of_mem_toChars {value : UInt32} {c : UInt8} (h : c ∈ toChars value) : 48 ≤ c.toNat := by
  obtain ⟨digit, hdigit, rfl⟩ := List.mem_map.mp h
  have hbounds := toNat_of_mem_toDigits hdigit
  rw [UInt8.toNat_ofNat']
  omega

theorem not_mem_toChars (value : UInt32) : newline ∉ toChars value ∧ space ∉ toChars value := by
  constructor
  . intro hmem
    exact absurd (toNat_of_mem_toChars hmem) (by decide)
  . intro hmem
    exact absurd (toNat_of_mem_toChars hmem) (by decide)

theorem readCode_toChars (value : UInt32) : readCode (toChars value) = value.toNat := by
  have hmap : (toChars value).map (fun c => Char.ofNat c.toNat) = Nat.toDigits 10 value.toNat := by
    rw [toChars, List.map_map]
    conv_rhs => rw [← List.map_id (Nat.toDigits 10 value.toNat)]
    apply List.map_congr_left
    intro digit hdigit
    have hbounds := toNat_of_mem_toDigits hdigit
    rw [Function.comp_apply, UInt8.toNat_ofNat', Nat.mod_eq_of_lt (by omega), Char.ofNat_toNat, id]
  rw [readCode, hmap, Nat.ofDigitChars_ten_toDigits]

namespace LogEntry

theorem line_eq (entry : LogEntry)
    : entry.line = ascii "[" ++ (entry.level.toString ++ (ascii "] [" ++ (entry.error.category.toString ++
        (ascii "] code=" ++ (toChars entry.error.code ++ (ascii " message=" ++ entry.error.message)))))) := by
  simp only [line, head, List.append_assoc]

theorem readLine_line (entry : LogEntry) : readLine entry.line = some entry.fields := by
  rw [line_eq, readLine, readField_append entry.level.not_mem_toString.2 rfl, Option.bind_eq_bind,
    Option.bind_some]
  simp only []
  rw [readField_append entry.error.category.not_mem_toString.2 rfl, Option.bind_eq_bind, Option.bind_some]
  simp only []
  rw [readField_append (not_mem_toChars entry.error.code).2 rfl, Option.bind_some]
  simp only []
  rw [dropPrefix?_append, Option.bind_some, readCode_toChars]
  rfl

theorem newline_mem_line {entry : LogEntry} : newline ∈ entry.line ↔ newline ∈ entry.error.message := by
  have h₁ : newline ∉ ascii "[" := by decide
  have h₂ : newline ∉ ascii "] [" := by decide
  have h₃ : newline ∉ ascii "] code=" := by decide
  have h₄ : newline ∉ ascii " message=" := by decide
  simp only [line_eq, List.mem_append, h₁, h₂, h₃, h₄, entry.level.not_mem_toString.1,
    entry.error.category.not_mem_toString.1, (not_mem_toChars entry.error.code).1, false_or]

end LogEntry

/--
All that the records of a single thread add to a healthy stream.
-/
def logText (entries : List LogEntry) : Text := entries.flatMap fun entry => entry.line ++ [newline]

theorem readsBack_iff (entries : List LogEntry) : ReadsBack (logText entries) entries ↔ SingleLine entries := by
  constructor
  . intro h entry hentry hmem
    have hlength := congrArg List.length h
    rw [List.length_map, List.length_map] at hlength
    exact not_mem_of_length_lines hlength entry hentry (LogEntry.newline_mem_line.mpr hmem)
  . intro h
    have hlines : lines newline (logText entries) = entries.map LogEntry.line := by
      apply lines_eq_map
      intro entry hentry hmem
      exact h entry hentry (LogEntry.newline_mem_line.mp hmem)
    rw [ReadsBack, hlines, List.map_map]
    apply List.map_congr_left
    intro entry _
    exact entry.readLine_line

namespace BufferedSink

structure Holds (sink : BufferedSink) (producer : ThreadId) (text : Text) : Prop where
  healthy : sink.output.failed = false
  reserves : sink.flushThreshold ≤ maximumSize
  shards : sink.shards = [] ∧ sink.output.contents = text ∨
    ∃ buffer, sink.shards = [⟨producer, buffer⟩] ∧ sink.output.contents ++ buffer = text

variable {sink : BufferedSink} {producer : ThreadId} {text : Text}

theorem Holds.register (h : sink.Holds producer text)
    : ∃ buffer, sink.output.contents ++ buffer = text ∧
        registerShard sink.flushThreshold sink.shards producer = .ok (0, [⟨producer, buffer⟩]) := by
  rcases h.shards with ⟨hshards, hcontents⟩ | ⟨buffer, hshards, hcontents⟩
  . refine ⟨[], by rw [List.append_nil, hcontents], ?_⟩
    rw [hshards, registerShard, List.findIdx?_nil, Shard.create, if_pos h.reserves]
    rfl
  . refine ⟨buffer, hcontents, ?_⟩
    rw [hshards, registerShard]
    simp

theorem Holds.write (h : sink.Holds producer text) (entry : LogEntry)
    : ∃ accepted sink', sink.write producer entry = .ok (accepted, sink') ∧
        sink'.Holds producer (text ++ (entry.line ++ [newline])) := by
  obtain ⟨buffer, rfl, hregister⟩ := h.register
  unfold BufferedSink.write
  simp only [hregister, bind, Except.bind, pure, Except.pure, List.getElem?_cons_zero, Option.getD_some,
    Shard.append_eq, Shard.flush_eq h.healthy, List.set_cons_zero]
  by_cases hlt : (buffer ++ (entry.line ++ [newline])).length < sink.flushThreshold
  . refine ⟨true, { sink with shards := [⟨producer, buffer ++ (entry.line ++ [newline])⟩] }, ?_, h.healthy,
      h.reserves, ?_⟩
    . exact if_pos hlt
    . exact .inr ⟨_, rfl, (List.append_assoc _ _ _).symm⟩
  . refine ⟨_, _, if_neg hlt, ?_, h.reserves, .inr ⟨_, rfl, ?_⟩⟩
    . rw [Stream.failed_write, h.healthy]
    . rw [Stream.contents_write h.healthy, List.append_nil, List.append_assoc]

theorem writeAll_cons (sink : BufferedSink) (producer : ThreadId) (entry : LogEntry) (entries : List LogEntry)
    : sink.writeAll producer (entry :: entries) =
        (sink.write producer entry).bind fun result => result.2.writeAll producer entries := by
  rw [writeAll, List.foldlM_cons]
  cases sink.write producer entry <;> rfl

theorem Holds.writeAll (h : sink.Holds producer text) (entries : List LogEntry)
    : ∃ sink', sink.writeAll producer entries = .ok sink' ∧ sink'.Holds producer (text ++ logText entries) := by
  induction entries generalizing sink text with
  | nil =>
    refine ⟨sink, rfl, ?_⟩
    rw [logText, List.flatMap_nil, List.append_nil]
    exact h
  | cons entry entries ih =>
    obtain ⟨accepted, after, hwrite, hafter⟩ := h.write entry
    obtain ⟨last, hall, hlast⟩ := ih hafter
    rw [List.append_assoc] at hlast
    refine ⟨last, ?_, hlast⟩
    rw [writeAll_cons, hwrite]
    exact hall

theorem Holds.flush (h : sink.Holds producer text) : sink.flush.2.output.contents = text := by
  unfold BufferedSink.flush
  rcases h.shards with ⟨hshards, hcontents⟩ | ⟨buffer, hshards, hcontents⟩
  . rw [hshards]
    exact hcontents
  . rw [hshards, ← hcontents]
    simp only [flush.flushAll, Shard.flush_eq h.healthy, Stream.contents_write h.healthy]

end BufferedSink

/--
The writes throw if the sink cannot reserve its threshold. Else the records are in the stream after a flush.
-/
inductive BufferedSink.Writes (sink : BufferedSink) (producer : ThreadId) (entries : List LogEntry) : Prop where
  | throws (hthreshold : maximumSize < sink.flushThreshold) (hentries : entries ≠ [])
      (hwrites : sink.writeAll producer entries = .error .mk)
  | ok (sink' : BufferedSink) (hthreshold : sink.flushThreshold ≤ maximumSize ∨ entries = [])
      (hwrites : sink.writeAll producer entries = .ok sink')
      (hflush : sink'.flush.2.output.contents = sink.output.contents ++ logText entries)

theorem BufferedSink.writes (sink : BufferedSink) (hhealthy : sink.output.failed = false) (hshards : sink.shards = [])
    (producer : ThreadId) (entries : List LogEntry)
    : sink.Writes producer entries := by
  by_cases hreserves : sink.flushThreshold ≤ maximumSize
  . have hholds : sink.Holds producer sink.output.contents := ⟨hhealthy, hreserves, .inl ⟨hshards, rfl⟩⟩
    obtain ⟨sink', hwrites, hafter⟩ := hholds.writeAll entries
    exact .ok sink' (.inl hreserves) hwrites hafter.flush
  . cases entries with
    | nil =>
      refine .ok sink (.inr rfl) rfl ?_
      rw [flush, hshards, logText, List.flatMap_nil, List.append_nil]
      rfl
    | cons entry entries =>
      refine .throws (Nat.lt_of_not_le hreserves) (List.cons_ne_nil _ _) ?_
      rw [writeAll_cons, write, hshards, registerShard, List.findIdx?_nil, Shard.create, if_neg hreserves]
      rfl

inductive TextWriter.Writes (writer : TextWriter) (entries : List LogEntry) : Prop where
  | throws (hcapacity : maximumSize < writer.capacity) (hentries : entries ≠ [])
      (hlog : writer.log entries = .error .mk)
  | ok (hcapacity : writer.capacity ≤ maximumSize ∨ entries = []) (hlog : writer.log entries = .ok (logText entries))

theorem TextWriter.writes (writer : TextWriter) (entries : List LogEntry) : writer.Writes entries := by
  cases writer with
  | immediate =>
    refine .ok (.inl (Nat.zero_le _)) ?_
    rw [log, ImmediateSink.writeAll_eq, Stream.contents_write rfl]
    rfl
  | buffered flushThreshold producer =>
    cases BufferedSink.writes (BufferedSink.empty flushThreshold) rfl rfl producer entries with
    | throws hthreshold hentries hwrites =>
      refine .throws hthreshold hentries ?_
      rw [log, hwrites]
      rfl
    | ok sink hthreshold hwrites hflush =>
      refine .ok hthreshold ?_
      rw [log, hwrites, Except.map, hflush]
      rfl

theorem TextWriter.eq_of_log {writer : TextWriter} {entries : List LogEntry} {log : Text}
    (h : writer.log entries = .ok log)
    : log = logText entries := by
  cases writer.writes entries with
  | throws _ _ hlog =>
    rw [hlog] at h
    cases h
  | ok _ hlog =>
    rw [hlog] at h
    exact (Except.ok.inj h).symm

theorem text_log_reads_back (writer : TextWriter) (entries : List LogEntry)
    : (writer.log entries = .error .mk ↔ maximumSize < writer.capacity ∧ entries ≠ []) ∧
        ∀ log, writer.log entries = .ok log → (ReadsBack log entries ↔ SingleLine entries) ∧
          ∀ writer' entries', TextWriter.log writer' entries' = .ok log → SingleLine entries → SingleLine entries' →
            entries.map LogEntry.fields = entries'.map LogEntry.fields := by
  constructor
  . cases writer.writes entries with
    | throws hcapacity hentries hlog => exact iff_of_true hlog ⟨hcapacity, hentries⟩
    | ok hcapacity hlog =>
      refine iff_of_false (by rw [hlog]; nofun) ?_
      rintro ⟨hlt, hentries⟩
      rcases hcapacity with hle | hnil
      . exact Nat.not_lt.mpr hle hlt
      . exact hentries hnil
  . intro log hlog
    obtain rfl := TextWriter.eq_of_log hlog
    refine ⟨readsBack_iff entries, ?_⟩
    intro writer' entries' hlog' h h'
    have hread := (readsBack_iff entries).mpr h
    have hread' := (readsBack_iff entries').mpr h'
    rw [ReadsBack, TextWriter.eq_of_log hlog'] at hread
    rw [ReadsBack, hread] at hread'
    have hinjective : Function.Injective (some : RecordFields → Option RecordFields) :=
      fun _ _ h => Option.some.inj h
    apply List.map_injective_iff.mpr hinjective
    rw [List.map_map, List.map_map]
    exact hread'

def plainEntry (message : String) : LogEntry where
  error := { category := .network, code := 7, message := ascii message }

theorem text_log_reads_back_two
    : ∃ log, TextWriter.log .immediate [plainEntry "", plainEntry "a] code="] = .ok log ∧
        ReadsBack log [plainEntry "", plainEntry "a] code="] ∧
        ∀ entries, TextWriter.log (.buffered ⟨1, Nat.one_pos⟩ (some 0)) entries = .ok log → SingleLine entries →
          [plainEntry "", plainEntry "a] code="].map LogEntry.fields = entries.map LogEntry.fields := by
  have hsingle : SingleLine [plainEntry "", plainEntry "a] code="] := by
    unfold SingleLine
    decide
  have hlog : TextWriter.log .immediate [plainEntry "", plainEntry "a] code="] =
      .ok (ImmediateSink.writeAll {} [plainEntry "", plainEntry "a] code="]).contents := rfl
  obtain ⟨hreads, hunique⟩ := (text_log_reads_back .immediate [plainEntry "", plainEntry "a] code="]).2 _ hlog
  exact ⟨_, hlog, hreads.mpr hsingle, fun entries hentries => hunique _ entries hentries hsingle⟩

-- A line break in a message makes two lines of one record, which then look like two records.
theorem text_log_forged
    : ∃ log, TextWriter.log .immediate [plainEntry "a\n[INFO] [NETWORK] code=7 message=b"] = .ok log ∧
        TextWriter.log .immediate [plainEntry "a", plainEntry "b"] = .ok log ∧
        ¬ReadsBack log [plainEntry "a\n[INFO] [NETWORK] code=7 message=b"] ∧
        [plainEntry "a\n[INFO] [NETWORK] code=7 message=b"].map LogEntry.fields ≠
          [plainEntry "a", plainEntry "b"].map LogEntry.fields := by
  refine ⟨(ImmediateSink.writeAll {} [plainEntry "a", plainEntry "b"]).contents, by decide, rfl, ?_, by decide⟩
  unfold ReadsBack
  decide

end Vosp
