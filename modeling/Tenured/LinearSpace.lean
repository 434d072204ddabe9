import Tenured.Object
import Tenured.Region.Bounds
import Tenured.Workers

/-!
# Linear spaces

A linear space hands out memory from its bottom towards its end: the top is where the next block
begins. What lies below the top holds objects one after another, each with its size in its header.
What lies above the top can be mangled, that is, filled with a pattern that shows when something
has been written there.

* `LinearSpace.handOut` hands out a block if it fits.
* `LinearSpace.setUp` gives the space new bounds.
* `LinearSpace.objects` and `LinearSpace.verify` walk over the objects.
-/

namespace Tenured

/-- The bounds of a space, and how far it is used. -/
structure LinearSpace where
  bottom : Nat := 0
  top : Nat := 0
  stop : Nat := 0
  /-- The top when it was last recorded. -/
  notedTop : Nat := 0
deriving DecidableEq, Inhabited

namespace LinearSpace

/-- The word that fills unused memory. -/
def manglePattern : Nat := 0xbaadbabebaadbabe

/-- The addresses from the bottom to the end. -/
def extent (s : LinearSpace) : Except Fault Region :=
  Region.ofBounds s.bottom s.stop

/-- The addresses from the bottom to the top. -/
def usedExtent (s : LinearSpace) : Except Fault Region :=
  Region.ofBounds s.bottom s.top

/-- The number of bytes in a space. -/
def capacity (s : LinearSpace) : Except Fault Nat :=
  Word.sub s.stop s.bottom

/-- The number of bytes below the top. -/
def used (s : LinearSpace) : Except Fault Nat :=
  Word.sub s.top s.bottom

/-- The number of bytes above the top. -/
def free (s : LinearSpace) : Nat :=
  s.stop - s.top

/-- Whether no block has been handed out. -/
def isEmpty (s : LinearSpace) : Bool :=
  s.top == s.bottom

/-- Whether an address lies between the bottom and the end. -/
def contains (s : LinearSpace) (addr : Nat) : Bool :=
  s.bottom ≤ addr && addr < s.stop

/-! ## Allocation -/

/-- The top after a block of so many words was handed out, if the block fits. -/
def topAfter? (s : LinearSpace) (words : Nat) : Option Nat := do
  let size ← Word.mul? words Object.wordSize
  let newTop ← Word.add? s.top size
  if s.stop < newTop then none else some newTop

/-- The start of a block of so many words, if it fits, and the space without that block. -/
def handOut (s : LinearSpace) (words : Nat) : Except Fault (Option Nat × LinearSpace) :=
  match s.topAfter? words with
  | none => return (none, s)
  | some newTop => do
    check (s.top % Object.alignment = 0) .blockUnaligned
    return (some s.top, { s with top := newTop })

/-- The space with another top between its bottom and its end. -/
def moveTop (s : LinearSpace) (addr : Nat) : Except Fault LinearSpace := do
  if s.bottom ≤ addr ∧ addr ≤ s.stop then return { s with top := addr }
  else throw (.topOutsideSpace addr (← s.extent))

/-- The space with its present top recorded. -/
def noteTop (s : LinearSpace) : LinearSpace :=
  { s with notedTop := s.top }

/-! ## Mangling -/

/-- Memory in which every whole word of a region holds the pattern. -/
def mangle (m : Memory) (region : Region) : Except Fault Memory := do
  check (region.start % Object.wordSize = 0) .mangleUnaligned
  return m.fill (region.start / Object.wordSize) region.words manglePattern

/-- Whether the word at an address holds the pattern. -/
def holdsPattern (m : Memory) (addr : Nat) : Except Fault Bool := do
  return (← m.readWord addr) == manglePattern

/-- The first address below `limit`, in steps of a word from `addr` on, at which the pattern is
missing. -/
def firstDisturbed? (m : Memory) (addr limit : Nat) : Except Fault (Option Nat) :=
  if limit ≤ addr then return none
  else
    match holdsPattern m addr with
    | .error e => throw e
    | .ok false => return some addr
    | .ok true =>
      if Word.limit ≤ addr + Object.wordSize then throw .overflow
      else firstDisturbed? m (addr + Object.wordSize) limit
termination_by limit - addr
decreasing_by simp only [Object.wordSize] at *; omega

/-- Memory in which what lies above the top holds the pattern. -/
def mangleRest (s : LinearSpace) (m : Memory) : Except Fault Memory :=
  if h : s.top < s.stop then mangle m ⟨s.top, s.stop, Nat.le_of_lt h⟩ else return m

/-- Checks that everything from the top up to `limit` holds the pattern. Nothing is checked unless
`limit` is the end. -/
def checkRestUpTo (s : LinearSpace) (m : Memory) (limit : Nat) : Except Fault Unit :=
  if limit ≠ s.stop then return ()
  else do
    match ← firstDisturbed? m s.top limit with
    | none => return ()
    | some addr => throw (.notMangled addr s.top)

/-- Checks that everything above the top holds the pattern. -/
def checkRest (s : LinearSpace) (m : Memory) : Except Fault Unit :=
  s.checkRestUpTo m s.stop

/-- The space without its objects, and memory in which they are mangled if asked for. -/
def clear (s : LinearSpace) (mangled : Bool) (m : Memory) :
    Except Fault (LinearSpace × Memory) := do
  let s ← s.moveTop s.bottom
  let m ← if mangled then s.mangleRest m else pure m
  return (s, m)

/-! ## New bounds -/

/-- The addresses to touch so that the part of a region outside the present bounds is provided. -/
def newTouches (s : LinearSpace) (region : Region) (plan : TouchPlan) : Except Fault (List Nat) :=
  if s.bottom = s.stop then plan.touches region.start region.stop
  else do
    let tail ←
      if s.stop < region.stop then plan.touches (max s.stop region.start) region.stop
      else pure []
    let head ←
      if region.start < s.bottom then plan.touches region.start (min s.bottom region.stop)
      else pure []
    return tail ++ head

/-- Memory in which the part of a region outside the present bounds was touched, if there is a plan
to do so. -/
def touchNew (s : LinearSpace) (region : Region) (plan : Option TouchPlan) (m : Memory) :
    Except Fault Memory :=
  match plan with
  | none => return m
  | some plan => do return m.touchAll (← s.newTouches region plan)

/-- The space with another bottom. Its top must lie in the region that it is going to have. -/
def setBottom (s : LinearSpace) (region : Region) : Except Fault LinearSpace := do
  check (region.start ≤ s.top ∧ s.top ≤ region.stop) (.topOutsideNewSpace s.top region)
  return { s with bottom := region.start }

/-- The space with another end. -/
def setStop (s : LinearSpace) (stop : Nat) : LinearSpace :=
  { s with stop }

/-- The space with new bounds that keeps its objects, and memory in which what is new was
touched. -/
def extend (s : LinearSpace) (region : Region) (plan : Option TouchPlan) (m : Memory) :
    Except Fault (LinearSpace × Memory) := do
  let m ← s.touchNew region plan m
  let s ← s.setBottom region
  return (s.setStop region.stop, m)

/-- The space with new bounds and without objects, and memory in which what is new was touched, and
then all of it mangled if asked for. -/
def reset (s : LinearSpace) (region : Region) (mangled : Bool) (plan : Option TouchPlan)
    (m : Memory) : Except Fault (LinearSpace × Memory) := do
  let m ← s.touchNew region plan m
  let m ← if mangled then mangle m region else pure m
  return (⟨region.start, region.start, region.stop, region.start⟩, m)

/-- The space with new bounds, with or without the objects that it had. -/
def setUp (s : LinearSpace) (region : Region) (clear mangled : Bool) (plan : Option TouchPlan)
    (m : Memory) : Except Fault (LinearSpace × Memory) :=
  if clear then s.reset region mangled plan m else s.extend region plan m

/-! ## Walks over the objects -/

/-- The objects from `addr` up to `top`, after those found before. -/
def objectsFrom (m : Memory) (top addr : Nat) (found : Array Object) :
    Except Fault (Array Object) :=
  if top ≤ addr then return found
  else
    match m.readWord addr with
    | .error e => throw e
    | .ok size =>
      if size = 0 then throw (.zeroSizedObject addr)
      else if Word.limit ≤ addr + size then throw .overflow
      else objectsFrom m top (addr + size) (found.push ⟨addr, size⟩)
termination_by top - addr

/-- The objects of a space in the order of their addresses. -/
def objects (s : LinearSpace) (m : Memory) : Except Fault (Array Object) :=
  objectsFrom m s.top s.bottom #[]

/-- The address at which a walk from `addr` reaches or passes `top`, if all sizes on the way are
sizes of objects. -/
def verifyFrom (m : Memory) (top addr : Nat) : Except Fault Nat :=
  if top ≤ addr then return addr
  else
    match m.readWord addr with
    | .error e => throw e
    | .ok size =>
      if size < Object.minSize ∨ size % Object.alignment ≠ 0 then throw (.badObjectSize size addr)
      else if Word.limit ≤ addr + size then throw .overflow
      else verifyFrom m top (addr + size)
termination_by top - addr
decreasing_by simp only [Object.minSize, Object.minWords, Object.wordSize] at *; omega

/-- Checks that objects lie one after another from the bottom to the top. -/
def verify (s : LinearSpace) (m : Memory) : Except Fault Unit := do
  let stop ← verifyFrom m s.top s.bottom
  check (stop = s.top) (.lastObjectPastTop stop s.top)

/-- How many hundredths of a capacity are used. -/
def usedPercent (s : LinearSpace) (capacity : Nat) : Except Fault Nat :=
  if capacity = 0 then return 0
  else do
    let hundredfold ← Word.mul (← s.used) 100
    return hundredfold / capacity

/-- The size of a space and how much of it is used. -/
def summary (s : LinearSpace) : Except Fault String := do
  let capacity ← s.capacity
  let percent ← s.usedPercent capacity
  let kb := Text.kilobytes capacity
  let (bottom, top, stop) := (Text.hex s.bottom, Text.hex s.top, Text.hex s.stop)
  return s!"space {kb}K, {percent}% used [{bottom}, {top}, {stop})"

theorem topAfter?_eq_some_iff {s : LinearSpace} {words newTop : Nat} (hs : s.stop < Word.limit) :
    s.topAfter? words = some newTop ↔ newTop = s.top + 8 * words ∧ newTop ≤ s.stop := by
  have h8 : Object.wordSize = 8 := rfl
  simp only [topAfter?, Word.mul?, Word.add?, h8]
  by_cases h₁ : words * 8 < Word.limit
  · by_cases h₂ : s.top + words * 8 < Word.limit
    · simp only [h₁, h₂, if_true, Option.bind_eq_bind, Option.bind_some]
      grind
    · simp only [h₁, h₂, if_true, if_false, Option.bind_eq_bind, Option.bind_some,
        Option.bind_none]
      grind
  · simp only [h₁, if_false, Option.bind_eq_bind, Option.bind_none]
    grind

end LinearSpace

end Tenured
