import Vosp.Lib.Lines
import Vosp.Logger.Basic

/-!
This module contains the text format of the stream sinks, with the record that `prepare_text_record`
builds in a fixed array, and the stream the sinks write to. A write to a failed stream has no effect.
-/

namespace Vosp

def newline : UInt8 := 10

def prefixCapacity : Nat := 512

-- The decimal form of the value, as `std::to_chars` writes it.
def toChars (value : UInt32) : Text := (Nat.toDigits 10 value.toNat).map fun c => UInt8.ofNat c.toNat

structure Stream where
  contents : Text := []
  failed : Bool := false
  deriving DecidableEq

namespace Stream

def write (out : Stream) (text : Text) : Stream :=
  if out.failed then out else { out with contents := out.contents ++ text }

def put (out : Stream) (c : UInt8) : Stream := out.write [c]

@[simp]
theorem failed_write (out : Stream) (text : Text) : (out.write text).failed = out.failed := by
  unfold write
  split
  . rfl
  . rfl

theorem write_write (out : Stream) (text text' : Text)
    : (out.write text).write text' = out.write (text ++ text') := by
  cases hfailed : out.failed with
  | true => simp [write, hfailed]
  | false => simp [write, hfailed]

@[simp]
theorem write_nil (out : Stream) : out.write [] = out := by
  simp [write]

theorem contents_write {out : Stream} (h : out.failed = false) (text : Text)
    : (out.write text).contents = out.contents ++ text := by
  simp [write, h]

theorem write_of_failed {out : Stream} (h : out.failed = true) (text : Text) : out.write text = out := by
  simp [write, h]

end Stream

namespace LogEntry

def head (entry : LogEntry) : Text :=
  ascii "[" ++ entry.level.toString ++ ascii "] [" ++ entry.error.category.toString ++ ascii "] code=" ++
    toChars entry.error.code ++ ascii " message="

def line (entry : LogEntry) : Text := entry.head ++ entry.error.message

end LogEntry

theorem length_toChars_le (value : UInt32) : (toChars value).length ≤ 10 := by
  rw [toChars, List.length_map, Nat.length_toDigits_le_iff (by decide) (by decide)]
  have hlt := value.toNat_lt
  omega

theorem Level.length_toString_le (level : Level) : level.toString.length ≤ 8 := by
  cases level with
  | unnamed value =>
    have h : (ascii "UNKNOWN").length ≤ 8 := by decide
    exact h
  | _ => decide

theorem Category.length_toString_le (category : Category) : category.toString.length ≤ 10 := by
  cases category with
  | unnamed value =>
    have h : (ascii "UNKNOWN").length ≤ 10 := by decide
    exact h
  | _ => decide

theorem LogEntry.length_head_le (entry : LogEntry) : entry.head.length ≤ prefixCapacity := by
  have hlevel := entry.level.length_toString_le
  have hcategory := entry.error.category.length_toString_le
  have hcode := length_toChars_le entry.error.code
  have h₁ : (ascii "[").length = 1 := by decide
  have h₂ : (ascii "] [").length = 3 := by decide
  have h₃ : (ascii "] code=").length = 7 := by decide
  have h₄ : (ascii " message=").length = 9 := by decide
  simp only [head, List.length_append, prefixCapacity]
  omega

/--
What `prepare_text_record` returns. The text never leaves the array.
-/
structure PreparedTextRecord where
  prefixText : Text
  message : Text
  messageIsBuffered : Bool
  fits : prefixText.length ≤ prefixCapacity

def prepareTextRecord (entry : LogEntry) : PreparedTextRecord :=
  let message := entry.error.message
  let remaining := prefixCapacity - entry.head.length
  if h : message.length < remaining then
    {
      prefixText := entry.head ++ message ++ [newline]
      message := message
      messageIsBuffered := true
      fits := by
        simp only [List.length_append, List.length_singleton]
        omega
    }
  else
    {
      prefixText := entry.head
      message := message
      messageIsBuffered := false
      fits := entry.length_head_le
    }

def PreparedTextRecord.text (record : PreparedTextRecord) : Text :=
  record.prefixText ++ if record.messageIsBuffered then [] else record.message ++ [newline]

theorem text_prepareTextRecord (entry : LogEntry)
    : (prepareTextRecord entry).text = entry.line ++ [newline] := by
  simp only [prepareTextRecord, PreparedTextRecord.text, LogEntry.line]
  split
  . rw [if_pos rfl, List.append_nil]
  . rw [if_neg Bool.false_ne_true, List.append_assoc]

end Vosp
