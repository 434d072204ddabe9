import Tenured.CardMarks
import Tenured.Config.Basic
import Tenured.Event.Log
import Tenured.Figures
import Tenured.ResizeTotals
import Tenured.CrossingMap
import Tenured.LinearSpace
import Tenured.TouchCursor
import Tenured.Backing

/-!
# Generations

A generation hands out memory for objects that live long. Its parts are a backing, whose committed
part is the memory that it may use, a linear space over that part, card marks and a crossing map
that cover it, and the cursor up to which it has been touched.

What the operations of a generation do is an `Action`: it has a result or a fault, and leaves a
generation in either case.
-/

namespace Tenured

/-- How the start of an object is looked up. -/
inductive Lookup
  /-- By the crossing map and the headers. -/
  | byCrossings
  /-- Not at all: every address is taken for a start. -/
  | asGiven
deriving DecidableEq

/-- A side table of a generation. -/
inductive SideTable
  | cards
  | crossings
deriving DecidableEq

/-- A change of the part that a side table covers, as seen just before it: the region to be covered,
the end of the object space, and the part that the card marks cover. -/
structure CoverChange where
  table : SideTable
  region : Region
  spaceStop : Nat
  cardsCovered : Region
deriving DecidableEq

/-- A generation, with the host that it acts on. -/
structure Generation extends Host where
  /-- What tells the guards of this generation from those of others. -/
  id : Nat
  name : String
  level : Nat
  config : Config
  workers : Workers
  /-- The number of memory nodes for which growth provides. -/
  nodes : Nat
  reserved : Region
  backing : Backing
  cards : CardMarks
  crossings : CrossingMap
  lookup : Lookup
  objects : LinearSpace
  cursor : TouchCursor
  figures : GenerationFigures
  spaceFigures : SpaceFigures
  totals : ResizeTotals
  events : EventLog
  /-- The changes of what the side tables cover, in order. -/
  coverChanges : Array CoverChange := #[]

/-- What an operation does to a generation. -/
abbrev Action := EStateM Fault Generation

namespace Generation

/-- The generation with other memory. -/
@[inline] def mapMemory (f : Memory → Memory) (g : Generation) : Generation :=
  let m := g.memory
  let g := { g with memory := .zero }
  { g with memory := f m }

/-- The generation with another crossing map. -/
@[inline] def mapCrossings (f : CrossingMap → CrossingMap) (g : Generation) : Generation :=
  let t := g.crossings
  let g := { g with crossings := .empty }
  { g with crossings := f t }

/-- The number of bytes that the generation may use. -/
def capacity (g : Generation) : Except Fault Nat :=
  g.objects.capacity

/-- The number of bytes handed out. -/
def used (g : Generation) : Except Fault Nat :=
  g.objects.used

/-- The number of bytes that can be handed out without growing. -/
def free (g : Generation) : Nat :=
  g.objects.free

/-- Whether the generation may use any memory. -/
def hasMemory (g : Generation) : Except Fault Bool := do
  return (← g.capacity) != 0

/-- Whether an address lies in the memory that the generation may use. -/
def holds (g : Generation) (addr : Nat) : Bool :=
  g.objects.contains addr

/-- Whether an address lies in the reservation. -/
def reserves (g : Generation) (addr : Nat) : Bool :=
  addr ∈ g.reserved

/-- The start of the object that an address lies in. -/
def startOf (g : Generation) (addr : Nat) : Except Fault Nat :=
  match g.lookup with
  | .byCrossings => g.crossings.find g.memory addr
  | .asGiven => return addr

/-- Writes a line to the journal. -/
def write (level : Level) (text : String) : Action Unit :=
  modify fun g => { g with journal := g.journal.write level text }

/-- Reports an event. -/
def emit (e : Event) : Action Unit :=
  modify fun g =>
    { g with
      journal := g.events.forward g.clock e g.journal
      events := g.events.record (g.clock, e) }

end Generation

end Tenured
