import Tenured.Error
import Tenured.Fault

/-!
# Attempts

An attempt ends with a result, with an error that the caller is meant to handle, or with a fault.
-/

namespace Tenured

/-- A computation that may end with an error or with a fault. -/
abbrev Attempt := ExceptT Error (Except Fault)

namespace Attempt

/-- The attempt that has this result or this error. -/
def ofExcept {α : Type} (r : Except Error α) : Attempt α :=
  .mk (.ok r)

/-- What became of an attempt. -/
inductive Outcome (α : Type)
  | result (a : α)
  | error (e : Error)
  | fault (e : Fault)

/-- What becomes of an attempt. -/
def outcome {α : Type} (x : Attempt α) : Outcome α :=
  match x.run with
  | .ok (.ok a) => .result a
  | .ok (.error e) => .error e
  | .error e => .fault e

end Attempt

end Tenured
