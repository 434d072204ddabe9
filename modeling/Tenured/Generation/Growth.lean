import Tenured.Generation.Update

/-!
# Growing and shrinking

The committed part of a generation changes only under the growth lock; a `Guard` is what holding the
lock gives. `Generation.grow` tries up to three commits: the least step by which the generation is
to grow, what was asked for, and all that is left. `Generation.giveBack` gives memory back, and
`Generation.resize` does whichever of the two brings the capacity to a target.
-/

namespace Tenured

/-- What holding the growth lock of a generation gives. -/
structure Guard where
  /-- The generation whose lock is held. -/
  owner : Nat
deriving DecidableEq

namespace Generation

/-- The guard of a generation. -/
def guard (g : Generation) : Guard :=
  ⟨g.id⟩

/-- Checks that a guard is the generation's own. -/
def checkGuard (guard : Guard) : Action Unit := do
  check (guard.owner = (← get).id) .foreignGuard

/-- Brings the generation in line with a commit that ended at `oldHigh` before, and reports it. -/
def settleGrowth (oldHigh : Nat) : Action Unit := do
  let g ← get
  let newHigh := g.backing.high
  let bytes := newHigh - oldHigh
  if g.config.mangleUnused then
    let region ← Region.ofBounds oldHigh newHigh
    (Update.mangle region).apply
  settle true
  publishCapacity
  modify fun g => { g with totals := g.totals.recordGrowth bytes .zero }
  let newSize := g.backing.committed
  let (oldKb, byKb, newKb) :=
    (Text.kilobytes (newSize - bytes), Text.kilobytes bytes, Text.kilobytes newSize)
  write .debug s!"Expanding {g.name} from {oldKb}K by {byKb}K to {newKb}K"
  emit (.grown g.name oldKb byKb newKb)

/-- Commits exactly so many bytes more. The result says whether that was granted. -/
def growBy (guard : Guard) (bytes : Nat) : Action Bool := do
  checkGuard guard
  if bytes = 0 then return true
  let g ← get
  let (granted, backing) := g.backing.commit bytes
  set { g with backing }
  if granted then settleGrowth g.backing.high
  return granted

/-- Commits all that is left. The result says whether something was left and granted. -/
def growFully (guard : Guard) : Action Bool := do
  checkGuard guard
  let g ← get
  let remaining ← g.backing.left
  if remaining = 0 then return false
  let (granted, backing) := g.backing.commit remaining
  set { g with backing }
  if granted then
    settleGrowth g.backing.high
  else
    write .warn s!"{g.name}: grow to reserve failed"
    emit (.growthFailed g.name remaining g.backing.committed (← g.backing.reserved))
  return granted

/-- The least step by which a generation grows if there is room for it. -/
def leastStep (g : Generation) : Except Fault Nat := do
  let step ← Rounding.up g.config.leastGrowth g.backing.alignment
  if g.config.perNode then return max step (← Word.mul g.backing.alignment g.nodes)
  return step

/-- A request rounded up to the alignment, or down if that is no word. -/
def alignedRequest (bytes alignment : Nat) : Except Fault Nat := do
  let up ← Rounding.up bytes alignment
  if up = 0 then Rounding.down bytes alignment else return up

/-- Grows by at least so many bytes, as far as possible. The result says whether a commit was
granted. -/
def grow (guard : Guard) (bytes : Nat) : Action Bool := do
  checkGuard guard
  let g ← get
  let step ← g.leastStep
  let request ← alignedRequest bytes g.backing.alignment
  if request < step then
    if ← growBy guard step then return true
  if ← growBy guard request then return true
  if ← growFully guard then return true
  modify fun g => { g with totals := g.totals.recordFailure }
  return false

/-- Gives back so many bytes, rounded down to the alignment. They must lie above the top. -/
def giveBack (guard : Guard) (bytes : Nat) : Action Unit := do
  checkGuard guard
  let g ← get
  let size ← Rounding.down bytes g.backing.alignment
  if size = 0 then return
  check (size ≤ g.backing.committed ∧ g.objects.top ≤ g.backing.high - size)
    (.releaseBelowTop g.name size g.objects.top)
  let (backing, host) ← g.backing.release size g.toHost
  set { g with toHost := host, backing }
  settle false
  publishCapacity
  modify fun g => { g with totals := g.totals.recordRelease size .zero }
  let newSize := backing.committed
  let (oldKb, byKb, newKb) :=
    (Text.kilobytes (newSize + size), Text.kilobytes size, Text.kilobytes newSize)
  write .debug s!"Shrinking {g.name} from {oldKb}K by {byKb}K to {newKb}K"
  emit (.shrunk g.name oldKb byKb newKb)

/-- The capacity at which a resize aims: what is used and what is to be free, within the bounds, and
rounded up to the alignment. -/
def resizeTarget (c : Config) (used desiredFree : Nat) : Except Fault Nat :=
  let wanted := (Word.add? used desiredFree).getD c.maxSize
  Rounding.up (max c.minSize (min wanted c.maxSize)) c.alignment

/-- Brings the capacity as near as possible to what leaves so many bytes free. -/
def resize (desiredFree : Nat) : Action Unit := do
  let g ← get
  let c := g.config
  let used ← g.used
  let capacity ← g.capacity
  let target ← resizeTarget c used desiredFree
  write .trace <|
    s!"{g.name} size: desired free: {desiredFree} used: {used} new size: {target} " ++
      s!"current size: {capacity} gen limits: {c.maxSize} / {c.minSize}"
  emit (.resizeAim g.name desiredFree used capacity target c.minSize c.maxSize)
  if target = capacity then return
  if capacity < target then
    discard <| grow g.guard (target - capacity)
  else
    giveBack g.guard (capacity - target)
  let capacityAfter ← (← get).capacity
  write .trace s!"{g.name} size: ({capacity}) -> ({capacityAfter})"
  emit (.resized g.name capacity capacityAfter)

end Generation

end Tenured
