import Tenured.Json.Record

/-!
# Events

What a generation reports about its size: that it grew or shrank, what a resize aimed at and what
came of it, that it could not grow, and a summary. An event has a level, a text for people
(`Event.human`) and a JSON record (`Event.toJson`).
-/

namespace Tenured

/-- How much attention a line asks for. -/
inductive Level
  | error
  | warn
  | info
  | debug
  | trace
deriving DecidableEq

namespace Level

/-- The place of a level in the order from the most urgent to the most verbose one. -/
def verbosity : Level → Nat
  | error => 1
  | warn => 2
  | info => 3
  | debug => 4
  | trace => 5

/-- Whether lines of a level are kept where `limit` is the most verbose level. -/
def admits (limit level : Level) : Bool :=
  level.verbosity ≤ limit.verbosity

/-- The name of a level. -/
protected def toString : Level → String
  | error => "ERROR"
  | warn => "WARN"
  | info => "INFO"
  | debug => "DEBUG"
  | trace => "TRACE"

instance : ToString Level := ⟨Level.toString⟩

end Level

/-- What a generation reports about its size. -/
inductive Event
  /-- The committed size grew. -/
  | grown (name : String) (oldKb byKb newKb : Nat)
  /-- The committed size shrank. -/
  | shrunk (name : String) (oldKb byKb newKb : Nat)
  /-- What a resize was asked for, and the capacity it aims at. -/
  | resizeAim (name : String) (desiredFree used capacity target minSize maxSize : Nat)
  /-- The capacity before and after a resize. -/
  | resized (name : String) (capacityBefore capacityAfter : Nat)
  /-- The committed size could not grow. -/
  | growthFailed (name : String) (requested committed reserved : Nat)
  /-- The size, the usage and the bounds. -/
  | summary (name : String) (capacityKb usedKb low high limit : Nat)
deriving DecidableEq, Inhabited

namespace Event

/-- The level at which an event is reported. -/
def level : Event → Level
  | growthFailed .. => .warn
  | summary .. => .info
  | grown .. | shrunk .. => .debug
  | resizeAim .. | resized .. => .trace

open Text in
/-- The text of an event for people. -/
def human : Event → String
  | grown name oldKb byKb newKb =>
    s!"[{name}] Expanding from {oldKb}K by {byKb}K to {newKb}K"
  | shrunk name oldKb byKb newKb =>
    s!"[{name}] Shrinking from {oldKb}K by {byKb}K to {newKb}K"
  | resizeAim name desiredFree used capacity target minSize maxSize =>
    s!"[{name}] resize: desired free {desiredFree} used {used} capacity {capacity} " ++
      s!"target {target} (min {minSize} max {maxSize})"
  | resized name capacityBefore capacityAfter =>
    s!"[{name}] resize: capacity {capacityBefore} -> {capacityAfter}"
  | growthFailed name requested committed reserved =>
    s!"[{name}] Failed to expand by {requested} bytes " ++
      s!"(committed {committed} of {reserved} reserved)"
  | summary name capacityKb usedKb low high limit =>
    s!"{name} total {capacityKb}K, used {usedKb}K [{hex low}, {hex high}, {hex limit})"

open Json in
/-- The members of an event's record. The first one tells what kind of event it is. -/
def members : Event → List (String × Scalar)
  | grown name oldKb byKb newKb =>
    [("type", .text "expand"), ("name", .text name), ("old_kb", .word oldKb), ("by_kb", .word byKb),
      ("new_kb", .word newKb)]
  | shrunk name oldKb byKb newKb =>
    [("type", .text "shrink"), ("name", .text name), ("old_kb", .word oldKb), ("by_kb", .word byKb),
      ("new_kb", .word newKb)]
  | resizeAim name desiredFree used capacity target minSize maxSize =>
    [("type", .text "resize_decision"), ("name", .text name), ("desired_free", .word desiredFree),
      ("used", .word used), ("capacity", .word capacity), ("target", .word target),
      ("min_size", .word minSize), ("max_size", .word maxSize)]
  | resized name capacityBefore capacityAfter =>
    [("type", .text "resize_outcome"), ("name", .text name),
      ("capacity_before", .word capacityBefore), ("capacity_after", .word capacityAfter)]
  | growthFailed name requested committed reserved =>
    [("type", .text "expand_failure"), ("name", .text name), ("requested", .word requested),
      ("committed", .word committed), ("reserved", .word reserved)]
  | summary name capacityKb usedKb low high limit =>
    [("type", .text "summary"), ("name", .text name), ("capacity_kb", .word capacityKb),
      ("used_kb", .word usedKb), ("low", .word low), ("high", .word high),
      ("high_boundary", .word limit)]

/-- The JSON record of an event. -/
def toJson (e : Event) : String :=
  Json.Record.print e.members

end Event

end Tenured
