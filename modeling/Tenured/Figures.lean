import Tenured.Json.Record

/-!
# Capacity figures

The figures that a generation and its space publish. Each has a written form as a JSON record, and
a reader for it.
-/

namespace Tenured

open Json

/-- The bounds and the capacity of a generation. -/
structure GenerationFigures where
  name : String
  level : Nat
  spaces : Nat
  minCapacity : Nat
  maxCapacity : Nat
  currentCapacity : Nat
deriving DecidableEq

namespace GenerationFigures

/-- The figures with a new capacity. -/
def update (c : GenerationFigures) (capacity : Nat) : GenerationFigures :=
  { c with currentCapacity := capacity }

/-- The members of the written form. -/
def members (c : GenerationFigures) : List (String × Scalar) :=
  [("name", .text c.name), ("level", .word c.level), ("spaces", .word c.spaces),
    ("min_capacity", .word c.minCapacity), ("max_capacity", .word c.maxCapacity),
    ("current_capacity", .word c.currentCapacity)]

/-- The fields of the written form. -/
def schema : List Field :=
  [⟨"name", .text⟩, ⟨"level", .word⟩, ⟨"spaces", .word⟩, ⟨"min_capacity", .word⟩,
    ⟨"max_capacity", .word⟩, ⟨"current_capacity", .word⟩]

/-- The written form. -/
def toJson (c : GenerationFigures) : String :=
  Record.print c.members

/-- The figures that a text holds. -/
def ofJson? (text : String) : Option GenerationFigures :=
  match Record.read? schema text with
  | some [.text name, .word level, .word spaces, .word minCapacity, .word maxCapacity,
      .word currentCapacity] =>
    some { name, level, spaces, minCapacity, maxCapacity, currentCapacity }
  | _ => none

end GenerationFigures

/-- The capacity and the usage of a space. -/
structure SpaceFigures where
  name : String
  maxCapacity : Nat
  capacity : Nat
  used : Nat := 0
deriving DecidableEq

namespace SpaceFigures

/-- The figures with a new capacity. -/
def updateCapacity (c : SpaceFigures) (capacity : Nat) : SpaceFigures :=
  { c with capacity }

/-- The figures with a new usage. -/
def updateUsed (c : SpaceFigures) (used : Nat) : SpaceFigures :=
  { c with used }

/-- The figures with a new capacity and usage. -/
def update (c : SpaceFigures) (capacity used : Nat) : SpaceFigures :=
  { c with capacity, used }

/-- The members of the written form. -/
def members (c : SpaceFigures) : List (String × Scalar) :=
  [("name", .text c.name), ("max_capacity", .word c.maxCapacity), ("capacity", .word c.capacity),
    ("used", .word c.used)]

/-- The fields of the written form. -/
def schema : List Field :=
  [⟨"name", .text⟩, ⟨"max_capacity", .word⟩, ⟨"capacity", .word⟩, ⟨"used", .word⟩]

/-- The written form. -/
def toJson (c : SpaceFigures) : String :=
  Record.print c.members

/-- The figures that a text holds. -/
def ofJson? (text : String) : Option SpaceFigures :=
  match Record.read? schema text with
  | some [.text name, .word maxCapacity, .word capacity, .word used] =>
    some { name, maxCapacity, capacity, used }
  | _ => none

end SpaceFigures

end Tenured
