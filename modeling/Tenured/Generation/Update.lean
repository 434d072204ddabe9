import Tenured.Generation.Basic

/-!
# Updates after a change of the committed part

After the committed part has grown or shrunk, the other parts of a generation follow in a fixed
order: new memory is mangled, the card marks and the crossing map cover what is committed, the
linear space takes its new bounds, its end last, and the cursor moves. An allocation looks only at
the end of the linear space; so by the time it can hand out new memory, both tables describe it.

`Generation.updates` is the list of these updates, and `Update.apply` does one of them.
-/

namespace Tenured

/-- A change of one part of a generation. -/
inductive Update
  /-- New memory is filled with the mangle pattern. -/
  | mangle (region : Region)
  /-- The card marks cover a region. -/
  | coverCards (region : Region)
  /-- The crossing map covers a region. -/
  | coverCrossings (region : Region)
  /-- What is new in a region is touched. -/
  | touchNew (region : Region)
  /-- The linear space takes the bottom of a region. -/
  | setBottom (region : Region)
  /-- The linear space takes an end. -/
  | setStop (stop : Nat)
  /-- The cursor moves up to an address, if it is below. -/
  | advanceCursor (stop : Nat)
  /-- The cursor moves down to an address, if it is above. -/
  | retreatCursor (stop : Nat)
deriving DecidableEq

namespace Generation

/-- Remembers that a side table is about to cover a region. -/
def noteCover (table : SideTable) (region : Region) : Action Unit :=
  modify fun g =>
    { g with coverChanges := g.coverChanges.push ⟨table, region, g.objects.stop, g.cards.covered⟩ }

/-- Makes the card marks cover a region. -/
def coverCards (region : Region) : Action Unit := do
  noteCover .cards region
  let g ← get
  let cards ← g.cards.cover region
  set { g with cards }

/-- Makes the crossing map cover a region. -/
def coverCrossings (region : Region) : Action Unit := do
  noteCover .crossings region
  let g ← get
  let crossings ← g.crossings.cover region
  set { g with crossings }

end Generation

open Generation in
/-- Does an update. -/
def Update.apply : Update → Action Unit
  | mangle region => do
    let g ← get
    check (g.objects.stop < region.stop) .endNotBelowNewHigh
    let memory ← LinearSpace.mangle g.memory region
    set { g with memory }
  | coverCards region => Generation.coverCards region
  | coverCrossings region => Generation.coverCrossings region
  | touchNew region => do
    let g ← get
    let memory ← g.objects.touchNew region (some ⟨g.workers, g.cursor.stride⟩) g.memory
    set { g with memory }
  | setBottom region => do
    let g ← get
    let objects ← g.objects.setBottom region
    set { g with objects }
  | setStop stop => modify fun g => { g with objects := g.objects.setStop stop }
  | advanceCursor stop => modify fun g => { g with cursor := g.cursor.advance stop }
  | retreatCursor stop => modify fun g => { g with cursor := g.cursor.retreat stop }

namespace Generation

/-- The updates by which the parts of a generation follow its committed part. -/
def updates (region : Region) (touched : Bool) : List Update :=
  [.coverCards region, .coverCrossings region] ++ (if touched then [.touchNew region] else []) ++
    [.setBottom region, .setStop region.stop,
      if touched then .advanceCursor region.stop else .retreatCursor region.stop]

/-- Checks that a region consists of whole cards, as far as the heap allows. -/
def checkCards (t : CardMarks) (region : Region) : Except Fault Unit := do
  check (CardMarks.isCardStart region.start) (.generationStartUnaligned region.start)
  check (region.stop = t.heap.stop ∨ CardMarks.isCardStart region.stop)
    (.generationEndUnaligned region.stop)

/-- Brings all parts in line with the committed part. -/
def settle (grown : Bool) : Action Unit := do
  let g ← get
  let region ← g.backing.committedPart
  checkCards g.cards region
  (updates region (grown && g.config.touchCommitted)).forM Update.apply

/-- Publishes the capacity, if figures are kept. -/
def publishCapacity : Action Unit := do
  let g ← get
  if g.config.keepFigures then
    let capacity ← g.capacity
    set { g with
      spaceFigures := g.spaceFigures.updateCapacity capacity
      figures := g.figures.update capacity }

end Generation

end Tenured
