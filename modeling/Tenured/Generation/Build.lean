import Tenured.Generation.Update

/-!
# Building a generation

A generation is built from a configuration and its parts: a backing, card marks and the way in
which object starts are looked up. `Generation.create` reserves the parts itself.
-/

namespace Tenured.Generation

/-- What a generation is built from. -/
structure Parts where
  backing : Backing
  cards : CardMarks
  lookup : Lookup := .byCrossings

/-- What a generation is built on: the machine, the host and the event log that are there. -/
structure Setting where
  machine : Machine
  host : Host
  events : EventLog

/-- The backing with the initial size committed, if it holds less. -/
def commitInitial (c : Config) (v : Backing) : Attempt Backing := do
  if c.initialSize ≤ v.committed then return v
  let (granted, v) := v.commit (c.initialSize - v.committed)
  if granted then return v
  throw (.heapInitialization s!"could not commit initial {c.initialSize} bytes")

/-- Checks that a backing fits a configuration. -/
def checkBacking (c : Config) (v : Backing) : Attempt Unit := do
  if v.alignment ≠ c.alignment then
    throw (.heapInitialization
      s!"virtual space alignment {v.alignment} differs from configured {c.alignment}")
  v.checkBounds
  let reserved ← v.reserved
  if reserved < c.maxSize then
    throw (.heapInitialization s!"reserved {reserved} bytes, need {c.maxSize}")

/-- The crossing map of a reservation. -/
def crossingsFor (reserved : Region) : Attempt CrossingMap :=
  match CrossingMap.ofReserved reserved with
  | .ok t => return t
  | .error e => throw (.heapInitialization s!"could not create object start index: {e.message}")

/-- Checks that a configuration can be used. -/
def checkConfig (c : Config) : Attempt Unit :=
  .ofExcept (c.validate.mapError .configuration)

/-- The line that announces a new generation. -/
def initializedLine (c : Config) (name : String) (reserved committed : Region) : String :=
  let (size, low, high) :=
    (Text.kilobytes committed.size, Text.kilobytes c.minSize, Text.kilobytes c.maxSize)
  s!"Initialized {name}: reserved {reserved}, committed {size} KB, bounds [{low} KB, {high} KB]"

/-- A generation built from its parts. -/
def ofParts (s : Setting) (c : Config) (name : String) (level id : Nat) (parts : Parts) :
    Attempt Generation := do
  checkConfig c
  checkBacking c parts.backing
  let backing ← commitInitial c parts.backing
  let reserved ← backing.whole
  checkCards parts.cards reserved
  let crossings ← crossingsFor reserved
  let committed ← backing.committedPart
  let cards ← parts.cards.cover committed
  let crossings ← crossings.cover committed
  let workers := Workers.ofCount (c.workerCount s.machine)
  let stride := c.touchStride
  let plan := if c.touchCommitted then some ⟨workers, stride⟩ else none
  let (objects, memory) ← ({} : LinearSpace).setUp committed true c.mangleUnused plan s.host.memory
  let start := if c.touchCommitted then committed.stop else committed.start
  let cursor ← TouchCursor.ofStart start stride workers.count
  return {
    memory
    journal := s.host.journal.write .debug (initializedLine c name reserved committed)
    clock := s.host.clock
    id
    name
    level
    config := c
    workers
    nodes := if c.perNode then c.nodeCount s.machine else 1
    reserved
    backing
    cards
    crossings
    lookup := parts.lookup
    objects
    cursor
    figures :=
      { name, level, spaces := 1, minCapacity := c.minSize, maxCapacity := c.maxSize
        currentCapacity := committed.size }
    spaceFigures := { name := "object space", maxCapacity := c.maxSize, capacity := committed.size }
    totals := {}
    events := s.events }

/-- An attempt whose errors are errors in setting up a generation, with words before them. -/
def settingUp {α : Type} (what : String) (x : Attempt α) : Attempt α :=
  .mk <| x.run.map (Except.mapError fun e => .heapInitialization (what ++ ": " ++ e.message))

/-- A generation with a reservation of its own. -/
def create (sys : AddressSpace) (s : Setting) (c : Config) (name : String) (level id : Nat) :
    Attempt Generation := do
  checkConfig c
  let base ← settingUp s!"could not reserve {c.maxSize} bytes for the old generation"
    (Reservation.reserve sys c.maxSize c.alignment)
  let s := { s with host := { s.host with journal := base.announce s.host.journal } }
  let heap ← base.whole
  let cards ← settingUp "could not create card table" (.ofExcept (CardMarks.ofHeap heap))
  ofParts s c name level id { backing := { base }, cards }

end Tenured.Generation
