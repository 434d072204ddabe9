import Tenured.Rounding
import Tenured.Host
import Tenured.Mapping
import Tenured.Region.Bounds

/-!
# Reservations

A reservation is a range of addresses with a committed part at its low end. The committed part grows
and shrinks at its upper end, by multiples of the alignment; what it loses is given back to the
system. The reservation is cut from a mapping that is longer by one alignment unit, so that it can
begin at a multiple of the alignment.

* `Reservation.high_of_commit?`: a granted commit raises the committed end by what was asked.
-/

namespace Tenured

/-- A range of addresses with a committed part. -/
structure Reservation where
  mapping : Mapping
  /-- The first reserved address. -/
  start : Nat
  /-- The end of the reserved addresses. -/
  stop : Nat
  /-- The end of the committed part. -/
  high : Nat
  /-- The unit of commits and releases. -/
  alignment : Nat
deriving DecidableEq, Inhabited

namespace Reservation

/-- The number of bytes committed. -/
def committed (r : Reservation) : Nat :=
  r.high - r.start

/-- The number of bytes reserved. -/
def reserved (r : Reservation) : Nat :=
  r.stop - r.start

/-- The number of bytes reserved and not committed. -/
def left (r : Reservation) : Nat :=
  r.stop - r.high

/-- A reservation of which nothing is committed. The size must be a positive multiple of the
alignment, which must be a power of two. -/
def reserve (sys : AddressSpace) (size alignment : Nat) : Attempt Reservation := do
  if !Rounding.isPowerOfTwo alignment then throw (.misaligned size alignment)
  if size = 0 ∨ !(← Rounding.isMultiple size alignment) then
    throw (.invalidArgument
      s!"reservation size {size} is not a non-zero multiple of {alignment}")
  if Word.limit ≤ size + alignment then
    throw (.virtualMemory s!"reservation of {size} bytes overflows")
  let mapping ← Mapping.obtain sys (size + alignment)
  let start ← Rounding.up mapping.base alignment
  let stop ← Word.add start size
  return ⟨mapping, start, stop, start, alignment⟩

/-- The journal after a reservation was announced. -/
def announce (r : Reservation) (j : Journal) : Journal :=
  let kb := Text.kilobytes r.reserved
  let (low, high) := (Text.hex r.start, Text.hex r.stop)
  j.write .debug s!"Reserved {kb} KB at [{low}, {high})"

/-- The reservation with so many bytes more committed: a positive multiple of the alignment, for
which there is room. -/
def commit? (r : Reservation) (bytes : Nat) : Option Reservation :=
  if bytes = 0 ∨ bytes &&& (r.alignment - 1) ≠ 0 ∨ r.left < bytes then none
  else some { r with high := r.high + bytes }

/-- The reservation with everything committed, if something was not. -/
def commitRest? (r : Reservation) : Option Reservation :=
  if r.left = 0 then none else r.commit? r.left

/-- A reservation of which the first `initial` bytes are committed. -/
def reserveCommitted (sys : AddressSpace) (size initial alignment : Nat) : Attempt Reservation := do
  let r ← reserve sys size alignment
  if initial = 0 then return r
  match r.commit? initial with
  | some r => return r
  | none => throw (.virtualMemory s!"initial commit of {initial} bytes failed (reserved {size})")

/-- The host after the last `bytes` committed bytes were given back. What cannot be given back is
kept, and the journal says so. -/
def giveBack (r : Reservation) (bytes : Nat) (h : Host) : Host :=
  let newHigh := r.high - bytes
  match r.mapping.giveBack newHigh bytes h.memory with
  | .ok m => h.withMemory m
  | .error e =>
    let (start, stop) := (Text.hex newHigh, Text.hex r.high)
    h.write .warn s!"Failed to release [{start}, {stop}): {e.message}"

/-- The reservation with so many bytes less committed, and the host after they were given back. -/
def release (r : Reservation) (bytes : Nat) (h : Host) : Except Fault (Reservation × Host) := do
  check (bytes ≤ r.committed) (.releasePastCommitted bytes r.committed)
  if bytes = 0 then return (r, h)
  return ({ r with high := r.high - bytes }, r.giveBack bytes h)

/-- The committed addresses. -/
def committedPart (r : Reservation) : Except Fault Region :=
  Region.ofBounds r.start r.high

/-- The reserved addresses. -/
def whole (r : Reservation) : Except Fault Region :=
  Region.ofBounds r.start r.stop

/-- A reservation with its bounds and its alignment. -/
def describe (r : Reservation) : Except Fault String := do
  let reserved ← r.whole
  let committed ← r.committedPart
  return "MappedVirtualSpace \x7b reserved: " ++ reserved.describe ++ ", committed: " ++
    committed.describe ++ ", alignment: " ++ toString r.alignment ++ " \x7d"

theorem commit?_eq_some {r r' : Reservation} {bytes : Nat} (h : r.commit? bytes = some r') :
    0 < bytes ∧ bytes ≤ r.left ∧ r' = { r with high := r.high + bytes } := by
  unfold commit? at h
  split at h <;> grind

theorem high_of_commit? {r r' : Reservation} {bytes : Nat} (h : r.commit? bytes = some r') :
    r'.high = r.high + bytes := by
  obtain ⟨-, -, rfl⟩ := commit?_eq_some h; rfl

end Reservation

end Tenured
