import Tenured.Fault
import Tenured.Rounding

/-!
# The touch cursor

While objects are allocated, memory above them is touched ahead of use. The cursor marks how far
that has gone: an allocation of less than a stride may move it by one stride, up to a limit above
the allocation. It never passes the end of the space, and a larger allocation leaves it alone.
-/

namespace Tenured

/-- How far memory has been touched, and how far the next allocations may carry that. -/
structure TouchCursor where
  /-- The first address that is not known to be touched. -/
  next : Nat
  /-- The distance between touched addresses. -/
  stride : Nat
  /-- The greatest lead over an allocation. -/
  limit : Nat
deriving DecidableEq, Inhabited

namespace TouchCursor

/-- A cursor that may lead by a stride for each worker. -/
def ofStart (start stride workers : Nat) : Except Fault TouchCursor := do
  check (Rounding.isPowerOfTwo stride) .strideNotPowerOfTwo
  let limit ← Word.mul stride (max workers 1)
  return ⟨start, stride, limit⟩

/-- What an allocation makes of the cursor. -/
inductive Step
  /-- The cursor stays. -/
  | stay
  /-- Nothing is left to touch, and the cursor moves to the end. -/
  | finish
  /-- An address is touched, and the cursor moves past its stride. -/
  | touch (addr : Nat)
deriving DecidableEq

/-- What an allocation of `size` bytes at `alloc`, in a space up to `stop`, makes of the cursor. -/
def step (c : TouchCursor) (alloc size stop : Nat) : Except Fault Step :=
  if c.stride ≤ size ∨ stop ≤ c.next then return .stay
  else do
    let allocated ← Word.add alloc size
    if allocated ≤ c.next then
      return if c.limit < c.next - allocated then .stay else .touch c.next
    else if Rounding.roundDown (stop - 1) c.stride < allocated then return .finish
    else return .touch (Rounding.roundUp allocated c.stride)

/-- The cursor past the stride of a touched address, but not past the end. -/
def claim (c : TouchCursor) (addr stop : Nat) : TouchCursor :=
  { c with next := if stop - addr < c.stride then stop else addr + c.stride }

/-- The cursor after an allocation, and the address that was touched. -/
def follow (c : TouchCursor) (alloc size stop : Nat) :
    Except Fault (TouchCursor × Option Nat) := do
  match ← c.step alloc size stop with
  | .stay => return (c, none)
  | .finish => return ({ c with next := stop }, none)
  | .touch addr => return (c.claim addr stop, some addr)

/-- The cursor after everything below an address was touched. -/
def advance (c : TouchCursor) (stop : Nat) : TouchCursor :=
  { c with next := max c.next stop }

/-- The cursor after everything from an address on was given back. -/
def retreat (c : TouchCursor) (stop : Nat) : TouchCursor :=
  { c with next := min c.next stop }

end TouchCursor

end Tenured
