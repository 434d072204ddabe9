import Tenured.Generation.Basic

/-!
# Iteration

The used part of a generation is cut into blocks of a fixed size, so that they can be visited
separately. An object belongs to the block that its start lies in, however far it reaches into
others.
-/

namespace Tenured.Generation

/-- The number of blocks that hold what is used. -/
def blockCount (g : Generation) : Except Fault Nat := do
  let size := g.config.iterationBlock
  return ((← g.used) + (size - 1)) / size

/-- The start of the block with an index, if it lies below the top. -/
def blockStart? (g : Generation) (k : Nat) : Option Nat := do
  let offset ← Word.mul? k g.config.iterationBlock
  let start ← Word.add? g.objects.bottom offset
  if start < g.objects.top then some start else none

/-- The first object start in a block: the object that an address lies in, or the one after it if
that begins before the block. -/
def firstFrom (g : Generation) (start : Nat) : Except Fault Nat := do
  let first ← g.startOf start
  let first ← if first < start then Object.read g.memory first >>= Object.stop else pure first
  check (start ≤ first) (.startBeforeBlock first start)
  return first

/-- The objects that start in the block with an index, in the order of their addresses. -/
def blockObjects (g : Generation) (k : Nat) : Except Fault (Array Object) := do
  let size := g.config.iterationBlock
  check (size % CrossingMap.blockSize = 0) .blockSizeUnaligned
  match g.blockStart? k with
  | none => return #[]
  | some start =>
    let stop := min g.objects.top (Word.addSat start size)
    if ← g.crossings.startsIn start stop then
      LinearSpace.objectsFrom g.memory stop (← g.firstFrom start) #[]
    else return #[]

/-- All objects, in the order of their addresses. -/
def allObjects (g : Generation) : Except Fault (Array Object) :=
  g.objects.objects g.memory

/-- The objects of all blocks, block by block. -/
def objectsByBlock (g : Generation) : Except Fault (List (Array Object)) := do
  ← g.workers.run (← g.blockCount) g.blockObjects

end Tenured.Generation
