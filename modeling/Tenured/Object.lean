import Tenured.Memory.Basic

/-!
# Objects

An object is a row of heap words. Its first word, the header, holds its size in bytes, so that
walking from an object by its size leads to the next one.
-/

namespace Tenured

/-- The place and the size of an object. -/
structure Object where
  addr : Nat
  size : Nat
deriving DecidableEq

namespace Object

/-- The number of bytes in a heap word. -/
abbrev wordSize : Nat := 8

/-- The number of bytes in a header. -/
def headerSize : Nat := wordSize

/-- What the address and the size of an object are multiples of. -/
def alignment : Nat := wordSize

/-- The least number of words in an object: the header and one more. -/
def minWords : Nat := 2

/-- The least number of bytes in an object. -/
def minSize : Nat := minWords * wordSize

/-- The object that starts at an address. -/
def read (m : Memory) (addr : Nat) : Except Fault Object := do
  return ⟨addr, ← m.readWord addr⟩

/-- The number of whole words in an object. -/
def words (o : Object) : Nat :=
  o.size / wordSize

/-- The first address after the header. -/
def dataStart (o : Object) : Except Fault Nat :=
  Word.add o.addr headerSize

/-- The first address after an object. -/
def stop (o : Object) : Except Fault Nat :=
  Word.add o.addr o.size

/-- Checks that an object may have a size. -/
def checkSize (size : Nat) : Except Fault Unit := do
  check (minSize ≤ size) (.objectTooSmall size)
  check (size % alignment = 0) .objectSizeUnaligned

/-- Memory after a header was written, for an object of an allowed size. -/
def writeHeader (m : Memory) (addr size : Nat) : Except Fault Memory := do
  Memory.checkAligned addr
  checkSize size
  return m.store addr size

/-- Whether the memory from an address on holds objects of the given sizes, one after another. -/
def Chain (m : Memory) (addr : Nat) : List Nat → Prop
  | [] => True
  | size :: sizes => m.load addr = size ∧ Chain m (addr + size) sizes

/-- The objects of the given sizes that lie one after another from an address on. -/
def ofSizes (addr : Nat) : List Nat → List Object
  | [] => []
  | size :: sizes => ⟨addr, size⟩ :: ofSizes (addr + size) sizes

end Object

end Tenured
