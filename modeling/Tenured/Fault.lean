import Tenured.Region.Basic
import Tenured.Text.Bytes
import Tenured.Word

/-!
# Faults

A fault ends a computation: a check on arithmetic, on an argument or on the heap has failed, and
there is no result to go on with. `Fault` has one constructor per cause, `Fault.kind` says which
sort of check it was, and `Fault.message` is its text.

A failure that the caller is meant to handle is an `Tenured.Error` instead.
-/

namespace Tenured

/-- The sorts of check that can fail. -/
inductive Fault.Kind
  /-- An invariant of the generation that is always checked. -/
  | guarantee
  /-- A condition on the caller, without a message of its own. -/
  | assertion
  /-- A condition on the caller, with a message. -/
  | panic
  /-- A sum, difference or product that is no machine word. -/
  | arithmetic
  /-- A table index outside the table. -/
  | bounds
  /-- An access to memory at an address where it may not be made. Nothing runs after it. -/
  | access
deriving DecidableEq

/-- The causes of a fault. -/
inductive Fault
  /-- A sum, difference or product is no machine word. -/
  | overflow
  /-- A table has no such entry. -/
  | outOfBounds
  /-- A region would end before it starts. -/
  | regionReversed (start stop : Nat)
  /-- A region would end beyond the last address. -/
  | regionTooLong (start size : Nat)
  /-- A word is accessed at an address that is not a multiple of the word size. -/
  | misaligned (addr : Nat)
  /-- An alignment is not a power of two. -/
  | alignmentNotPowerOfTwo
  /-- A stride between touched addresses is not a power of two. -/
  | strideNotPowerOfTwo
  /-- An address has no entry in a table over `bounds`. -/
  | addressOutside (addr : Nat) (bounds : Region)
  /-- The card of an uncovered address would be marked. -/
  | markUncovered
  /-- The card marks would cover more than the heap. -/
  | coverOutsideHeap (region heap : Region)
  /-- The cards would be covered from inside a card. -/
  | coverStartUnaligned (start : Nat)
  /-- The crossing map would cover more than its reservation. -/
  | coverOutsideReserved (region reserved : Region)
  /-- The crossing map would cover a part of a block. -/
  | coverNotBlockAligned (region : Region)
  /-- An object start is not covered by the crossing map. -/
  | startUncovered (addr : Nat) (covered : Region)
  /-- An object start is not a multiple of the word size. -/
  | startUnaligned
  /-- An address to look up is not covered by the crossing map. -/
  | lookupUncovered (addr : Nat) (covered : Region)
  /-- No object starts at or below the address to look up. -/
  | noStartBelow (addr : Nat)
  /-- An object's header holds size zero. -/
  | zeroSizedObject (addr : Nat)
  /-- A header would hold less than the smallest object size. -/
  | objectTooSmall (size : Nat)
  /-- A header would hold a size that is not a multiple of the object alignment. -/
  | objectSizeUnaligned
  /-- A block handed out is not aligned for an object. -/
  | blockUnaligned
  /-- The first word to mangle is not a multiple of the word size. -/
  | mangleUnaligned
  /-- The top would lie outside the bounds that the space takes. -/
  | topOutsideNewSpace (top : Nat) (space : Region)
  /-- The top would be moved out of the space. -/
  | topOutsideSpace (top : Nat) (space : Region)
  /-- A header holds a size that no object has. -/
  | badObjectSize (size addr : Nat)
  /-- The last object does not end at the top. -/
  | lastObjectPastTop (stop top : Nat)
  /-- A word of the unused area does not hold the mangle pattern. -/
  | notMangled (addr top : Nat)
  /-- More would be released than is committed. -/
  | releasePastCommitted (bytes committed : Nat)
  /-- The generation would start inside a card. -/
  | generationStartUnaligned (start : Nat)
  /-- The generation would end inside a card. -/
  | generationEndUnaligned (stop : Nat)
  /-- A guard is used on a generation that did not give it. -/
  | foreignGuard
  /-- The committed part grew to an end that the object space already has. -/
  | endNotBelowNewHigh
  /-- A release would reach below the top. -/
  | releaseBelowTop (name : String) (bytes top : Nat)
  /-- The card marks do not cover the object space. -/
  | cardsMismatch (covered space : Region)
  /-- The crossing map does not cover the object space. -/
  | crossingsMismatch (covered space : Region)
  /-- The object space leaves the reservation. -/
  | spaceOutsideReserved (space reserved : Region)
  /-- The capacity is above the maximum. -/
  | capacityAboveMax (capacity max : Nat)
  /-- The touch cursor is past the end of the object space. -/
  | cursorPastEnd (cursor stop : Nat)
  /-- The block that holds an object's start has no recorded start. -/
  | noStartInBlock (addr : Nat)
  /-- A look-up from inside an object found another one. -/
  | wrongStart (interior found addr : Nat)
  /-- The first object of a block of the iteration starts before the block. -/
  | startBeforeBlock (start block : Nat)
  /-- The iteration's blocks do not consist of whole crossing map blocks. -/
  | blockSizeUnaligned
  /-- A request is below the smallest object size. -/
  | requestTooSmall (words : Nat)
  /-- A request for room asks for no words. -/
  | requestEmpty
  /-- A span of time has more seconds than a word can hold. -/
  | elapsedTooLong
  /-- A helping worker would get a name with a null character in it. -/
  | helperNameHasNull (name : String)
deriving DecidableEq

namespace Fault

/-- The sort of check that failed. -/
def kind : Fault → Kind
  | overflow => .arithmetic
  | outOfBounds => .bounds
  | misaligned .. => .access
  | alignmentNotPowerOfTwo | strideNotPowerOfTwo | markUncovered | startUnaligned
  | objectSizeUnaligned | blockUnaligned | mangleUnaligned | endNotBelowNewHigh
  | blockSizeUnaligned => .assertion
  | regionReversed .. | regionTooLong .. | addressOutside .. | startUncovered .. | objectTooSmall ..
  | topOutsideNewSpace .. | foreignGuard | startBeforeBlock .. | requestTooSmall .. | requestEmpty
  | elapsedTooLong | helperNameHasNull .. => .panic
  | coverOutsideHeap .. | coverStartUnaligned .. | coverOutsideReserved .. | coverNotBlockAligned ..
  | lookupUncovered .. | noStartBelow .. | zeroSizedObject .. | topOutsideSpace ..
  | badObjectSize .. | lastObjectPastTop .. | notMangled .. | releasePastCommitted ..
  | generationStartUnaligned .. | generationEndUnaligned .. | releaseBelowTop .. | cardsMismatch ..
  | crossingsMismatch .. | spaceOutsideReserved .. | capacityAboveMax .. | cursorPastEnd ..
  | noStartInBlock .. | wrongStart .. => .guarantee

/-- The text of a condition that failed. -/
def failed (condition : String) : String :=
  "assertion failed: " ++ condition

open Text in
/-- The text of a fault, if its kind has one. -/
def message : Fault → String
  | overflow => "arithmetic overflow"
  | outOfBounds => "index out of bounds"
  | regionReversed start stop => s!"MemRegion end {hex stop} precedes start {hex start}"
  | regionTooLong start size => s!"MemRegion {hex start} + {size} overflows"
  | misaligned addr =>
    s!"misaligned pointer dereference: address must be a multiple of 0x8 but is {hex addr}"
  | alignmentNotPowerOfTwo => failed "alignment.is_power_of_two()"
  | strideNotPowerOfTwo => failed "stride.is_power_of_two()"
  | addressOutside addr bounds => s!"address {hex addr} outside {bounds}"
  | markUncovered => failed "self.covered_region().contains(addr)"
  | coverOutsideHeap region heap => s!"covered {region} outside heap {heap}"
  | coverStartUnaligned start => s!"covered start {hex start} not card aligned"
  | coverOutsideReserved region reserved => s!"covered {region} outside reserved {reserved}"
  | coverNotBlockAligned region => s!"covered {region} is not block aligned"
  | startUncovered addr covered => s!"object start {hex addr} outside covered {covered}"
  | startUnaligned => failed "addr.is_multiple_of(HEAP_WORD_SIZE)"
  | lookupUncovered addr covered => s!"object_start({hex addr}) outside covered {covered}"
  | noStartBelow addr => s!"no object start at or below {hex addr}"
  | zeroSizedObject addr => s!"zero-sized object at {hex addr}"
  | objectTooSmall size => s!"object of {size} bytes too small"
  | objectSizeUnaligned => failed "size.is_multiple_of(OBJECT_ALIGNMENT)"
  | blockUnaligned => failed "obj.is_multiple_of(OBJECT_ALIGNMENT)"
  | mangleUnaligned => failed "region.start().is_multiple_of(HEAP_WORD_SIZE)"
  | topOutsideNewSpace top space => s!"top {hex top} outside new space {space}"
  | topOutsideSpace top space => s!"top {hex top} outside {space}"
  | badObjectSize size addr => s!"bad object size {size} at {hex addr}"
  | lastObjectPastTop stop top => s!"last object ends at {hex stop}, top is {hex top}"
  | notMangled addr top => s!"unused area not mangled at {hex addr} (top {hex top})"
  | releasePastCommitted bytes committed =>
    s!"cannot shrink by {bytes} with only {committed} committed"
  | generationStartUnaligned start => s!"generation start {hex start} must be card aligned"
  | generationEndUnaligned stop => s!"generation end {hex stop} must be card aligned"
  | foreignGuard => "expand guard belongs to another generation"
  | endNotBelowNewHigh => failed "self.object_space.end() < new_high"
  | releaseBelowTop name bytes top =>
    s!"shrinking {name} by {bytes} bytes would cut below top {hex top}"
  | cardsMismatch covered space => s!"card table covers {covered}, space is {space}"
  | crossingsMismatch covered space => s!"object start index covers {covered}, space is {space}"
  | spaceOutsideReserved space reserved => s!"space {space} escapes reservation {reserved}"
  | capacityAboveMax capacity max => s!"capacity {capacity} above max {max}"
  | cursorPastEnd cursor stop => s!"pretouch cursor {hex cursor} past end {hex stop}"
  | noStartInBlock addr => s!"block of object {hex addr} has no recorded start"
  | wrongStart interior found addr =>
    s!"object start lookup for {hex interior} found {hex found}, object is at {hex addr}"
  | startBeforeBlock start block => s!"object start {hex start} before block {hex block}"
  | blockSizeUnaligned => failed "block_size.is_multiple_of(self.start_index.block_size())"
  | requestTooSmall words => s!"allocating {words} words, below the minimum object size"
  | requestEmpty => "allocating zero words?"
  | elapsedTooLong => "overflow in Duration::new"
  | helperNameHasNull name =>
    let (position, listed) := ((bytes name).idxOf 0, numberList (bytes name))
    s!"thread name may not contain interior null bytes: NulError({position}, {listed})"

end Fault

/-- A state change with a fault brings the fault into the enclosing computation. -/
instance {σ : Type} : MonadLift (Except Fault) (EStateM Fault σ) where
  monadLift
    | .ok a => pure a
    | .error e => throw e

/-- The value, or the given fault if there is none. -/
def orFault {α : Type} (e : Fault) : Option α → Except Fault α
  | some a => .ok a
  | none => .error e

/-- Nothing, or the given fault if the condition does not hold. -/
def check (p : Prop) [Decidable p] (e : Fault) : Except Fault Unit :=
  if p then .ok () else .error e

theorem orFault_eq_ok_iff {α : Type} {e : Fault} {o : Option α} {a : α} :
    orFault e o = .ok a ↔ o = some a := by
  cases o <;> simp [orFault]

theorem check_eq_ok_iff {p : Prop} [Decidable p] {e : Fault} : check p e = .ok () ↔ p := by
  unfold check; split <;> simp_all

namespace Word

/-- The sum, which must be a word. -/
def add (a b : Nat) : Except Fault Nat :=
  orFault .overflow (add? a b)

/-- The difference, which must be a word. -/
def sub (a b : Nat) : Except Fault Nat :=
  orFault .overflow (sub? a b)

/-- The product, which must be a word. -/
def mul (a b : Nat) : Except Fault Nat :=
  orFault .overflow (mul? a b)

theorem add_eq_ok_iff {a b c : Nat} : add a b = .ok c ↔ a + b < limit ∧ c = a + b := by
  rw [add, orFault_eq_ok_iff, add?_eq_some_iff]

theorem add_eq_overflow {a b : Nat} (h : limit ≤ a + b) : add a b = .error .overflow := by
  rw [add, add?, if_neg (Nat.not_lt.2 h), orFault]

theorem sub_eq_ok_iff {a b c : Nat} : sub a b = .ok c ↔ b ≤ a ∧ c = a - b := by
  rw [sub, orFault_eq_ok_iff, sub?_eq_some_iff]

theorem mul_eq_ok_iff {a b c : Nat} : mul a b = .ok c ↔ a * b < limit ∧ c = a * b := by
  rw [mul, orFault_eq_ok_iff, mul?_eq_some_iff]

end Word

end Tenured
