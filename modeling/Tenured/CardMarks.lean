import Tenured.BlockTable
import Tenured.Error

/-!
# Card marks

The card marks remember where the heap may hold pointers into the young generation. A card is 512
bytes of the heap, and it is dirty or clean. Only the cards of the covered part can be dirty: a card
enters it clean and leaves it clean.
-/

namespace Tenured

/-- Which cards of a heap are dirty, and which part of the heap is covered. -/
structure CardMarks where
  cards : BlockTable Bool
  covered : Region

namespace CardMarks

/-- The number of bytes in a card. -/
def cardSize : Nat := BlockTable.blockSize

/-- The byte that stands for a clean card. -/
def cleanByte : Nat := 255

/-- The byte that stands for a dirty card. -/
def dirtyByte : Nat := 0

/-- The heap whose cards the table keeps. -/
def heap (t : CardMarks) : Region :=
  t.cards.span

/-- Whether an address is the first of a card. -/
def isCardStart (addr : Nat) : Bool :=
  addr % cardSize == 0

/-- A table over a heap of whole cards, of which nothing is covered yet. -/
def ofHeap (heap : Region) : Except Error CardMarks :=
  if heap.isEmpty || !isCardStart heap.start || !isCardStart heap.stop then
    .error (.misaligned heap.start cardSize)
  else .ok ⟨.ofSpan heap false, .emptyAt heap.start⟩

/-- The table with a new covered part. -/
def cover (t : CardMarks) (region : Region) : Except Fault CardMarks := do
  check (t.heap.includes region) (.coverOutsideHeap region t.heap)
  check (isCardStart region.start) (.coverStartUnaligned region.start)
  return ⟨t.cards.recover t.covered region false, region⟩

/-- The table after the card of a covered address became dirty. -/
def mark (t : CardMarks) (addr : Nat) : Except Fault CardMarks := do
  check (addr ∈ t.covered) .markUncovered
  let k ← t.cards.blockOf addr
  return { t with cards := t.cards.set k true }

/-- Whether the card of an address is dirty. -/
def isMarked (t : CardMarks) (addr : Nat) : Except Fault Bool := do
  let k ← t.cards.blockOf addr
  return (t.cards.get? k).getD false

/-- The table after every card that the covered part of a region touches became dirty. -/
def markAll (t : CardMarks) (region : Region) : CardMarks :=
  let part := region.inter t.covered
  { t with cards := t.cards.fill part.start part.stop true }

/-- The table after every card that a region touches became clean. -/
def unmarkAll (t : CardMarks) (region : Region) : CardMarks :=
  let part := region.inter t.heap
  { t with cards := t.cards.fill part.start part.stop false }

/-- The number of dirty cards that the covered part touches. -/
def markedCount (t : CardMarks) : Nat :=
  (t.cards.slice t.covered.start t.covered.stop).count true

end CardMarks

end Tenured
