import Tenured.Text.Numeral

/-!
# Errors

An error is an outcome that the caller is meant to handle: a configuration that cannot be used, a
refusal by the system, or a generation that is full. `Error.message` is its text. A check that must
never fail raises a `Tenured.Fault` instead.
-/

namespace Tenured

/-- What is wrong with a configuration. -/
inductive Misconfiguration.Category
  | size
  | alignment
  | blockSize
  | workers
  | numa
  | largePages
deriving DecidableEq

/-- A configuration that cannot be used. -/
structure Misconfiguration where
  category : Misconfiguration.Category
  detail : String
deriving DecidableEq

namespace Misconfiguration

/-- The words that introduce an error of a category. -/
def Category.title : Category → String
  | size => "Invalid size"
  | alignment => "Invalid alignment"
  | blockSize => "Invalid iterate block size"
  | workers => "Invalid worker threads"
  | numa => "Invalid NUMA configuration"
  | largePages => "Invalid large pages"

/-- The text of an error. -/
def message (e : Misconfiguration) : String :=
  e.category.title ++ ": " ++ e.detail

end Misconfiguration

/-- The outcomes that a caller is meant to handle. -/
inductive Error
  /-- The generation cannot be set up. -/
  | heapInitialization (detail : String)
  /-- The system refused a mapping. -/
  | virtualMemory (detail : String)
  /-- The generation cannot grow enough for a request. -/
  | outOfMemory (requested available : Nat)
  /-- The configuration cannot be used. -/
  | configuration (e : Misconfiguration)
  /-- An argument is outside its range. -/
  | invalidArgument (detail : String)
  /-- An address is not a multiple of what it must be. -/
  | misaligned (address alignment : Nat)
deriving DecidableEq

namespace Error

/-- The text of an error. -/
def message : Error → String
  | heapInitialization detail => "Heap initialization failed: " ++ detail
  | virtualMemory detail => "Virtual memory error: " ++ detail
  | outOfMemory requested available =>
    s!"Out of memory: requested {requested} bytes, available {available} bytes"
  | configuration e => "Configuration error: " ++ e.message
  | invalidArgument detail => "Invalid argument: " ++ detail
  | misaligned address alignment =>
    s!"Alignment error: address {Text.hex address} is not aligned to {alignment} bytes"

/-- Whether a collection may make the request succeed. -/
def isRecoverable : Error → Bool
  | outOfMemory .. => true
  | _ => false

/-- Whether only a mistake of the caller brings the error about. -/
def isBug : Error → Bool
  | misaligned .. | invalidArgument _ => true
  | _ => false

end Error

end Tenured
