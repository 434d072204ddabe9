import Tenured.Config.Basic
import Tenured.Text.Decimal

/-!
# Configuration from the environment

A variable of the environment overrides the field that it names. A number that cannot be read is
passed over; a flag is on if its text is `1` or `true`, in any case, and off otherwise.
-/

namespace Tenured.Config

/-- The texts of the variables that are set. -/
abbrev Environment := String → Option String

/-- The number that a variable holds, if it is set to one. -/
def Environment.word? (env : Environment) (name : String) : Option Nat :=
  (env name).bind fun text => Text.readWord? text.toList

/-- Whether a text turns a flag on. -/
def isOn (text : String) : Bool :=
  text == "1" || text.toList.map Char.toLower == "true".toList

/-- The flag that a variable holds, if it is set. -/
def Environment.flag? (env : Environment) (name : String) : Option Bool :=
  (env name).map isOn

/-- A configuration with the fields that the environment overrides. -/
def override (c : Config) (env : Environment) : Config :=
  { c with
    maxSize := (env.word? "OLDGEN_MAX_SIZE").getD c.maxSize
    minSize := (env.word? "OLDGEN_MIN_SIZE").getD c.minSize
    initialSize := (env.word? "OLDGEN_INITIAL_SIZE").getD c.initialSize
    workers := (env.word? "OLDGEN_WORKER_THREADS") <|> c.workers
    growthPause := (env.word? "OLDGEN_EXPAND_DELAY_MS").getD c.growthPause
    touchCommitted := (env.flag? "OLDGEN_ALWAYS_PRETOUCH").getD c.touchCommitted
    mangleUnused := (env.flag? "OLDGEN_ZAP_UNUSED").getD c.mangleUnused }

/-- The configuration that the environment of a machine asks for. -/
def fromEnvironment (m : Machine) (env : Environment) : Config :=
  (default m).override env

@[simp] theorem override_none (c : Config) : c.override (fun _ => none) = c := by
  cases c; rfl

end Tenured.Config
