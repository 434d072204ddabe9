import Tenured.BlockTable
import Tenured.Error
import Tenured.Object

/-!
# The crossing map

The crossing map finds the object that an address lies in. For every block of 512 bytes it records
the first object start in the block, as a number of words from the start of the block. To look up an
address, it goes back over the blocks to the last recorded start at or below the address, and from
there on from object to object by the sizes in their headers.

The recorded starts are those of the covered part of the reservation; all other entries are blank.
-/

namespace Tenured

/-- The first object start in every block, and the part of the reservation that is covered. -/
structure CrossingMap where
  starts : BlockTable (Option Nat)
  covered : Region

namespace CrossingMap

/-- The number of bytes in a block. -/
def blockSize : Nat := BlockTable.blockSize

/-- The number of words in a block. -/
def blockWords : Nat := blockSize / Object.wordSize

/-- The map before it is given a reservation. -/
def empty : CrossingMap :=
  ⟨⟨.empty, #[]⟩, .empty⟩

instance : Inhabited CrossingMap := ⟨empty⟩

/-- The range whose blocks have entries. -/
def reserved (t : CrossingMap) : Region :=
  t.starts.span

/-- The map of a reservation of whole blocks, of which nothing is covered yet. -/
def ofReserved (reserved : Region) : Except Error CrossingMap :=
  if reserved.isEmpty || reserved.size % blockSize != 0 then
    .error (.invalidArgument
      s!"object start array needs a non-empty, block-multiple range, got {reserved}")
  else .ok ⟨.ofSpan reserved none, .emptyAt reserved.start⟩

/-- Whether a region begins and ends at block bounds. Its end is not looked at if its start is
inside a block. -/
def isBlockAligned (t : CrossingMap) (region : Region) : Except Fault Bool := do
  let first ← Word.sub region.start t.reserved.start
  if first % blockSize ≠ 0 then return false
  let last ← Word.sub region.stop t.reserved.start
  return last % blockSize == 0

/-- The map with a new covered part. -/
def cover (t : CrossingMap) (region : Region) : Except Fault CrossingMap := do
  check (t.reserved.includes region) (.coverOutsideReserved region t.reserved)
  let aligned ← t.isBlockAligned region
  check aligned (.coverNotBlockAligned region)
  return ⟨t.starts.recover t.covered region none, region⟩

/-- The smaller of an offset and a recorded one. -/
def earlier (offset : Nat) : Option Nat → Nat
  | none => offset
  | some k => min offset k

/-- The words between the start of the block with an index and an address in it. -/
def offsetIn (t : CrossingMap) (k addr : Nat) : Nat :=
  (addr - t.starts.blockStart k) / Object.wordSize

/-- The start recorded for the block with an index, as a number of words. -/
def entry (t : CrossingMap) (k : Nat) : Option Nat :=
  (t.starts.get? k).getD none

/-- The block of an object start, which must be covered and a multiple of the word size. -/
def checkStart (t : CrossingMap) (addr : Nat) : Except Fault Nat := do
  check (addr ∈ t.covered) (.startUncovered addr t.covered)
  check (addr % Object.wordSize = 0) .startUnaligned
  t.starts.blockOf addr

/-- The map after an object start in the block with an index was recorded. -/
def recordAt (t : CrossingMap) (k addr : Nat) : CrossingMap :=
  let offset := earlier (t.offsetIn k addr) (t.entry k)
  { t with starts := t.starts.set k (some offset) }

/-- The map after an object start was recorded. -/
def record (t : CrossingMap) (addr : Nat) : Except Fault CrossingMap := do
  let k ← t.checkStart addr
  return t.recordAt k addr

/-- Whether an object starts in one of the blocks that a range touches. -/
def startsIn (t : CrossingMap) (start stop : Nat) : Except Fault Bool :=
  if stop ≤ start then return false
  else do
    discard <| t.starts.blockOf start
    discard <| t.starts.blockOf (stop - 1)
    return (t.starts.slice start stop).any Option.isSome

/-- Whether an object starts in the block of an address. -/
def hasStart (t : CrossingMap) (addr : Nat) : Except Fault Bool := do
  let k ← t.starts.blockOf addr
  return (t.entry k).isSome

/-- The number of covered blocks in which an object starts. -/
def startCount (t : CrossingMap) : Nat :=
  (t.starts.slice t.covered.start t.covered.stop).countP Option.isSome

/-- The map without the starts in the covered part. -/
def forget (t : CrossingMap) : CrossingMap :=
  { t with starts := t.starts.fill t.covered.start t.covered.stop none }

/-- The start recorded for a block, if it is not above an address. -/
def candidate? (t : CrossingMap) (addr k : Nat) : Option Nat :=
  match t.entry k with
  | none => none
  | some offset =>
    let start := t.starts.blockStart k + offset * Object.wordSize
    if start ≤ addr then some start else none

/-- The last recorded start at or below an address, sought from a block down to the first one. -/
def lastStart? (t : CrossingMap) (addr first : Nat) : Nat → Option Nat
  | 0 => t.candidate? addr 0
  | k + 1 =>
    match t.candidate? addr (k + 1) with
    | some start => some start
    | none => if first < k + 1 then t.lastStart? addr first k else none

/-- The start of the object that an address lies in, sought from object to object. -/
def walk (m : Memory) (addr start : Nat) : Except Fault Nat :=
  match m.readWord start with
  | .error e => .error e
  | .ok size =>
    if size = 0 then .error (.zeroSizedObject start)
    else if Word.limit ≤ start + size then .error .overflow
    else if addr < start + size then .ok start
    else walk m addr (start + size)
termination_by addr + 1 - start

/-- The start of the object that a covered address lies in. -/
def find (t : CrossingMap) (m : Memory) (addr : Nat) : Except Fault Nat := do
  check (addr ∈ t.covered) (.lookupUncovered addr t.covered)
  let first ← t.starts.blockOf t.covered.start
  let last ← t.starts.blockOf addr
  let start ← orFault (.noStartBelow addr) (t.lastStart? addr first last)
  walk m addr start

end CrossingMap

end Tenured
