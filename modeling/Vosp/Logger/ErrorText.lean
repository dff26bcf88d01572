import Vosp.Logger.ReadBack

/-!
This module contains the text of an error, which `to_string` and `std::format` give, and a reader for it. The message
is the rest of the text, so it can contain anything.
-/

namespace Vosp

def categoryName (category : Category) : Text :=
  match category with
  | .network => ascii "NETWORK"
  | .database => ascii "DATABASE"
  | .filesystem => ascii "FILESYSTEM"
  | .none => ascii "NONE"
  | .unnamed _ => ascii "UNKNOWN"

theorem categoryName_eq (category : Category) : categoryName category = category.toString := by
  cases category <;> rfl

def Error.toString (error : Error) : Text :=
  ascii "[" ++ categoryName error.category ++ ascii ":" ++ toChars error.code ++ ascii "] " ++ error.message

def Category.named (category : Category) : Bool :=
  match category with
  | .unnamed _ => false
  | _ => true

def colon : UInt8 := 58

structure ErrorFields where
  category : Text
  code : Nat
  message : Text

def Error.fields (error : Error) : ErrorFields where
  category := categoryName error.category
  code := error.code.toNat
  message := error.message

def readErrorFields (text : Text) : Option ErrorFields := do
  let (category, text) ← readField (ascii "[") colon text
  let (digits, text) ← readField (ascii ":") rightBracket text
  let message ← text.dropPrefix? (ascii "] ")
  return ⟨category, readCode digits, message⟩

def readCategory (name : Text) : Option Category :=
  [.network, .database, .filesystem, .none].find? fun category => categoryName category = name

def readError (text : Text) : Option Error := do
  let fields ← readErrorFields text
  let category ← readCategory fields.category
  return ⟨category, .ofNat fields.code, fields.message⟩

theorem colon_not_mem_categoryName (category : Category) : colon ∉ categoryName category := by
  cases category with
  | unnamed value =>
    have h : colon ∉ ascii "UNKNOWN" := by decide
    exact h
  | _ => decide

theorem rightBracket_not_mem_toChars (value : UInt32) : rightBracket ∉ toChars value := by
  intro hmem
  obtain ⟨digit, hdigit, heq⟩ := List.mem_map.mp hmem
  have hbounds := toNat_of_mem_toDigits hdigit
  have hmark : rightBracket.toNat = 93 := rfl
  rw [← heq, UInt8.toNat_ofNat'] at hmark
  omega

theorem readCategory_categoryName (category : Category)
    : readCategory (categoryName category) = if category.named then some category else none := by
  cases category with
  | unnamed value =>
    have h : readCategory (ascii "UNKNOWN") = none := by decide
    exact h
  | _ => decide

theorem categoryName_eq_iff {category category' : Category}
    : categoryName category = categoryName category' ↔
        category = category' ∨ category.named = false ∧ category'.named = false := by
  constructor
  . intro h
    have hread := congrArg readCategory h
    rw [readCategory_categoryName, readCategory_categoryName] at hread
    split at hread <;> split at hread
    . exact .inl (Option.some.inj hread)
    . cases hread
    . cases hread
    . next hnot hnot' => exact .inr ⟨by simpa using hnot, by simpa using hnot'⟩
  . rintro (rfl | ⟨h, h'⟩)
    . rfl
    . cases category
      case unnamed =>
        cases category'
        case unnamed => rfl
        all_goals cases h'
      all_goals cases h

namespace Error

theorem readErrorFields_toString (error : Error) : readErrorFields error.toString = some error.fields := by
  have htext : error.toString = ascii "[" ++ (categoryName error.category ++ (ascii ":" ++ (toChars error.code ++
      (ascii "] " ++ error.message)))) := by
    simp only [toString, List.append_assoc]
  rw [htext, readErrorFields, readField_append (colon_not_mem_categoryName error.category) rfl, Option.bind_eq_bind,
    Option.bind_some]
  simp only []
  rw [readField_append (rightBracket_not_mem_toChars error.code) rfl, Option.bind_eq_bind, Option.bind_some]
  simp only []
  rw [dropPrefix?_append, Option.bind_some, readCode_toChars]
  rfl

theorem toString_eq_iff {error error' : Error}
    : error.toString = error'.toString ↔
        categoryName error.category = categoryName error'.category ∧ error.code = error'.code ∧
          error.message = error'.message := by
  constructor
  . intro h
    have hread := congrArg readErrorFields h
    rw [readErrorFields_toString, readErrorFields_toString, Option.some.injEq, fields, fields,
      ErrorFields.mk.injEq, UInt32.toNat_inj] at hread
    exact hread
  . rintro ⟨hcategory, hcode, hmessage⟩
    rw [toString, toString, hcategory, hcode, hmessage]

theorem readError_toString (error : Error)
    : readError error.toString = if error.category.named then some error else none := by
  rw [readError, readErrorFields_toString, Option.bind_eq_bind, Option.bind_some]
  simp only [fields, readCategory_categoryName, UInt32.ofNat_toNat]
  split <;> rfl

end Error

theorem error_text_faithful (error error' : Error)
    : (error.toString = error'.toString ↔
          error = error' ∨ error.category.named = false ∧ error'.category.named = false ∧
            error.code = error'.code ∧ error.message = error'.message) ∧
        readError error.toString = (if error.category.named then some error else none) ∧
        categoryName error.category = error.category.toString := by
  refine ⟨?_, error.readError_toString, categoryName_eq error.category⟩
  rw [Error.toString_eq_iff, categoryName_eq_iff]
  cases error
  cases error'
  simp only [Error.mk.injEq]
  tauto

end Vosp
