import Tenured.Generation.Growth

/-!
# Allocation

A block that fits below the end is handed out at once: its header is written, its start recorded,
and the memory above it touched ahead of use. `Generation.allocate` grows the generation until the
block fits or nothing more can be committed.
-/

namespace Tenured.Generation

/-- Touches memory ahead of an allocation of so many words. -/
def touchAhead (addr words : Nat) : Action Unit := do
  let g ← get
  let (cursor, touched) ←
    g.cursor.follow addr (Word.mulSat words Object.wordSize) g.objects.stop
  set { g with cursor }
  match touched with
  | some addr => modify (mapMemory (·.touch addr))
  | none => return

/-- Writes the header of an object. -/
def writeHeader (addr size : Nat) : Action Unit := do
  Memory.checkAligned addr
  Object.checkSize size
  modify (mapMemory (·.store addr size))

/-- Records the start of an object. -/
def recordStart (addr : Nat) : Action Unit := do
  let k ← (← get).crossings.checkStart addr
  modify (mapCrossings (·.recordAt k addr))

/-- Hands out a block of so many words if it fits. -/
def handOut (words : Nat) : Action (Option Nat) := do
  check (Object.minWords ≤ words) (.requestTooSmall words)
  let (addr, objects) ← (← get).objects.handOut words
  modify fun g => { g with objects }
  match addr with
  | none => return none
  | some addr =>
    writeHeader addr (words * Object.wordSize)
    recordStart addr
    touchAhead addr words
    return some addr

/-- Grows so that a block of so many words can fit, unless it fits already. The result is false if
growing failed. -/
def makeRoom (words : Nat) : Action Bool := do
  check (0 < words) .requestEmpty
  let g ← get
  if g.free / Object.wordSize < words then grow g.guard (Word.mulSat words Object.wordSize)
  else return true

/-- The error for a block of so many words that does not fit. -/
def outOfMemory (words : Nat) (g : Generation) : Error :=
  .outOfMemory (Word.mulSat words Object.wordSize) g.free

/-- Hands out a block of so many words in at most so many tries, and grows between them. -/
def allocateWithin (words : Nat) : Nat → Action (Except Error Nat)
  | 0 => return .error (outOfMemory words (← get))
  | tries + 1 => do
    match ← handOut words with
    | some addr => return .ok addr
    | none =>
      if ← makeRoom words then allocateWithin words tries
      else return .error (outOfMemory words (← get))

/-- Hands out a block of so many words, and grows as often as that makes room. Every time it grows,
less is left to commit, which bounds the number of tries. -/
def allocate (words : Nat) : Action (Except Error Nat) := do
  if words < Object.minWords then
    return .error (.invalidArgument
      s!"object of {words} words is below the minimum of {Object.minWords}")
  allocateWithin words ((← get).backing.base.left + 1)

/-- Grows by at least so many words, and then hands out a block if it fits. -/
def growAndHandOut (words : Nat) : Action (Option Nat) := do
  discard <| grow (← get).guard (Word.mulSat words Object.wordSize)
  handOut words

end Tenured.Generation
