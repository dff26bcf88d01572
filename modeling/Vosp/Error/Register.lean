import Mathlib.Data.Fintype.Basic
import Mathlib.Data.List.AList
import Vosp.Error.Basic

/-!
This module contains the built-in `Register`. Its unordered map is an association list without
duplicate keys, in the order in which the map iterates. That every stored error belongs to the
register and is stored under its own code is part of the type.
-/

namespace Vosp

def duplicateErrorCode : UInt32 := 0xE001

def missingErrorCode : UInt32 := 0xE002

def registerCapacityErrorCode : UInt32 := 0xE005

def registerCategoryErrorCode : UInt32 := 0xE006

def maxRegisterCapacity : Nat := 1000000

structure Register (category : Category) where
  capacityLimit : Nat
  errors : AList (fun _ : UInt32 => Error)
  capacityLimit_pos : 0 < capacityLimit
  capacityLimit_le : capacityLimit ≤ maxRegisterCapacity
  size_le : errors.keys.length ≤ capacityLimit
  stored : ∀ code error, errors.lookup code = some error → error.category = category ∧ error.code = code

namespace Register

variable {category : Category}

def validateLimits (expectedSize capacityLimit : Nat)
    : Except InvalidArgument (PLift (0 < capacityLimit ∧ capacityLimit ≤ maxRegisterCapacity)) :=
  if h : capacityLimit = 0 ∨ maxRegisterCapacity < capacityLimit then
    .error ⟨"Register capacity must be in [1, max_register_capacity]"⟩
  else if capacityLimit < expectedSize then
    .error ⟨"Register expected size exceeds its capacity limit"⟩
  else
    .ok ⟨by omega⟩

def create (expectedSize : Nat := 64) (capacityLimit : Nat := maxRegisterCapacity)
    : Except InvalidArgument (Register category) := do
  let ⟨h⟩ ← validateLimits expectedSize capacityLimit
  return {
    capacityLimit := capacityLimit
    errors := ∅
    capacityLimit_pos := h.1
    capacityLimit_le := h.2
    size_le := Nat.zero_le _
    stored := by simp
  }

def empty (category : Category) : Register category where
  capacityLimit := maxRegisterCapacity
  errors := ∅
  capacityLimit_pos := by decide
  capacityLimit_le := Nat.le_refl _
  size_le := Nat.zero_le _
  stored := by simp

-- The storage that is reserved has no effect that a caller sees.
def reserve (r : Register category) (expectedSize : Nat) : Except InvalidArgument (Register category) := do
  let _ ← validateLimits expectedSize r.capacityLimit
  return r

def size (r : Register category) : Nat := r.errors.keys.length

def mismatch (category : Category) : Error :=
  ⟨category, registerCategoryErrorCode, ascii "Error category does not match this register"⟩

def duplicate (category : Category) : Error :=
  ⟨category, duplicateErrorCode, ascii "Error is already registered"⟩

def full (category : Category) : Error :=
  ⟨category, registerCapacityErrorCode, ascii "Error register capacity limit reached"⟩

def missing (category : Category) : Error :=
  ⟨category, missingErrorCode, ascii "Error is not registered"⟩

def missingCode (category : Category) : Error :=
  ⟨category, missingErrorCode, ascii "Error code is not registered"⟩

def tryEmplace (r : Register category) (error : Error) (hcategory : error.category = category)
    (hroom : r.size < r.capacityLimit) : Option (Register category) :=
  if h : error.code ∈ r.errors then
    none
  else
    some
      { r with
        errors := r.errors.insert error.code error
        size_le := by
          rw [AList.keys_insert, List.erase_of_not_mem (AList.mem_keys.not.mp h)]
          exact hroom
        stored := by
          intro code error' hlookup
          by_cases hcode : code = error.code
          . subst hcode
            rw [AList.lookup_insert] at hlookup
            cases hlookup
            exact ⟨hcategory, rfl⟩
          . rw [AList.lookup_insert_ne hcode] at hlookup
            exact r.stored code error' hlookup }

def erase (r : Register category) (code : UInt32) : Register category :=
  { r with
    errors := r.errors.erase code
    size_le := by
      rw [AList.keys_erase]
      exact Nat.le_trans List.length_erase_le r.size_le
    stored := by
      intro code' error' hlookup
      by_cases hcode : code' = code
      . rw [hcode, AList.lookup_erase] at hlookup
        cases hlookup
      . rw [AList.lookup_erase_ne hcode] at hlookup
        exact r.stored code' error' hlookup }

def add (r : Register category) (error : Error) : OperationResult × Register category :=
  if hcategory : error.category ≠ category then
    (.error (mismatch category), r)
  else if hfull : r.capacityLimit ≤ r.size then
    if error.code ∈ r.errors then
      (.error (duplicate category), r)
    else
      (.error (full category), r)
  else
    match r.tryEmplace error (Decidable.not_not.mp hcategory) (Nat.lt_of_not_le hfull) with
    | none => (.error (duplicate category), r)
    | some r => (.ok (), r)

def remove (r : Register category) (error : Error) : OperationResult × Register category :=
  if error.category ≠ category then
    (.error (mismatch category), r)
  else
    match r.errors.lookup error.code with
    | none => (.error (missing category), r)
    | some stored =>
      if stored ≠ error then (.error (missing category), r) else (.ok (), r.erase error.code)

def removeCode (r : Register category) (code : UInt32) : OperationResult × Register category :=
  if code ∈ r.errors then (.ok (), r.erase code) else (.error (missingCode category), r)

def contains (r : Register category) (error : Error) : Bool :=
  match r.errors.lookup error.code with
  | none => false
  | some stored => stored = error

def containsCode (r : Register category) (code : UInt32) : Bool := code ∈ r.errors

def find (r : Register category) (code : UInt32) : Option Error := r.errors.lookup code

def snapshot (r : Register category) : List Error := r.errors.entries.map fun entry => entry.snd

def clear (r : Register category) : Nat × Register category :=
  (r.size,
    { r with
      errors := ∅
      size_le := Nat.zero_le _
      stored := by simp })

inductive Call where
  | add (error : Error)
  | remove (error : Error)
  | removeCode (code : UInt32)
  | clear
  | reserve (expectedSize : Nat)
  | find (code : UInt32)
  | contains (error : Error)
  | containsCode (code : UInt32)
  | snapshot
  | size
  | capacityLimit

inductive Answer where
  | result (result : OperationResult)
  | returned
  | thrown (exception : InvalidArgument)
  | count (count : Nat)
  | found (error : Option Error)
  | flag (value : Bool)
  | errors (errors : List Error)

def call (r : Register category) (call : Call) : Answer × Register category :=
  match call with
  | .add error => (r.add error).map .result id
  | .remove error => (r.remove error).map .result id
  | .removeCode code => (r.removeCode code).map .result id
  | .clear => r.clear.map .count id
  | .reserve expectedSize =>
    match r.reserve expectedSize with
    | .ok r => (.returned, r)
    | .error exception => (.thrown exception, r)
  | .find code => (.found (r.find code), r)
  | .contains error => (.flag (r.contains error), r)
  | .containsCode code => (.flag (r.containsCode code), r)
  | .snapshot => (.errors r.snapshot, r)
  | .size => (.count r.size, r)
  | .capacityLimit => (.count r.capacityLimit, r)

def run (r : Register category) (calls : List Call) : List Answer × Register category :=
  match calls with
  | [] => ([], r)
  | c :: calls =>
    let (answer, r) := r.call c
    let (answers, r) := r.run calls
    (answer :: answers, r)

end Register

end Vosp
