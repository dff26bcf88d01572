import Mathlib.Data.Nat.Notation

/-!
This module contains the error values of `error.hpp` that the runtime components exchange, and the
exception that their constructors throw. A `std::string` is a sequence of bytes in no particular
encoding.
-/

namespace Vosp

abbrev Text := List UInt8

def ascii (s : String) : Text := s.toList.map fun c => UInt8.ofNat c.toNat

-- The enumeration has an underlying type of 16 bits, so it also has values without a name.
inductive Category where
  | network
  | database
  | filesystem
  | none
  | unnamed (value : { v : UInt16 // 2 < v ∧ v < 0xffff })
  deriving DecidableEq

structure Error where
  category : Category
  code : UInt32
  message : Text
  deriving DecidableEq

abbrev Result (α : Type) := Except Error α

abbrev OperationResult := Result Unit

structure InvalidArgument where
  what : String
  deriving DecidableEq

end Vosp
