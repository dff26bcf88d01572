import Vosp.Error.Basic

/-!
This module contains the records of `logger.hpp`, the names that the text sinks print for them and the
policies that select records and their metadata.
-/

namespace Vosp

-- The enumeration has an underlying type of 8 bits, so it also has values without a name.
inductive Level where
  | trace
  | debug
  | info
  | warning
  | error
  | critical
  | unnamed (value : { v : UInt8 // 5 < v })
  deriving DecidableEq

-- The default-constructed id is the id of no thread.
abbrev ThreadId := Option Nat

abbrev TimePoint := Int

structure LogEntry where
  timestamp : TimePoint := 0
  threadId : ThreadId := none
  level : Level := .info
  error : Error
  deriving DecidableEq

def Level.toString (level : Level) : Text :=
  match level with
  | .trace => ascii "TRACE"
  | .debug => ascii "DEBUG"
  | .info => ascii "INFO"
  | .warning => ascii "WARNING"
  | .error => ascii "ERROR"
  | .critical => ascii "CRITICAL"
  | .unnamed _ => ascii "UNKNOWN"

def Category.toString (category : Category) : Text :=
  match category with
  | .network => ascii "NETWORK"
  | .database => ascii "DATABASE"
  | .filesystem => ascii "FILESYSTEM"
  | .none => ascii "NONE"
  | .unnamed _ => ascii "UNKNOWN"

abbrev LoggerPolicy := Level → Bool

def acceptAllPolicy : LoggerPolicy := fun _ => true

/--
What a metadata policy makes of the time and of the thread that runs it.
-/
structure LoggerMetadataPolicy where
  timestamp : TimePoint → TimePoint
  threadId : ThreadId → ThreadId

def fullMetadataPolicy : LoggerMetadataPolicy where
  timestamp now := now
  threadId self := self

end Vosp
