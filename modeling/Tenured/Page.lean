import Tenured.Rounding

/-!
# Pages

A page is 4096 bytes; a large page, where the system has them, is two megabytes. Reading or writing
any address of a page makes the system provide it, which is called touching the page.
`Page.touches` lists the addresses that are touched to have a whole range provided: the multiples
of the stride inside the range.
-/

namespace Tenured.Page

/-- The number of bytes in a page. -/
def size : Nat := 4096

/-- The number of bytes in a large page. -/
def largeSize : Nat := 2 * 1024 * 1024

/-- Rounding up to whole pages; a size in the last page of the address space is a fault. -/
def roundUp (bytes : Nat) : Except Fault Nat := do
  let padded ← Word.add bytes size
  return Rounding.clearBelow (padded - 1) size

/-- Rounding down to whole pages. -/
def roundDown (bytes : Nat) : Nat :=
  Rounding.clearBelow bytes size

/-- The number of pages that hold so many bytes. -/
def count (bytes : Nat) : Nat :=
  (bytes + (size - 1)) / size

/-- Whether an address is the first of a page. -/
def isPageStart (addr : Nat) : Bool :=
  addr % size == 0

/-- The addresses `first`, `first + stride`, … below `stop`. -/
def points (first stop stride : Nat) : List Nat :=
  (List.range ((stop - first + (stride - 1)) / stride)).map fun i => first + i * stride

/-- The first address to touch for a range that begins at `start`: the least multiple of the stride
that is not below it. -/
def firstPoint (start stride : Nat) : Except Fault Nat := do
  check (stride ≠ 0) .overflow
  let floor := Rounding.clearBelow start stride
  if floor < start then Word.add floor stride else return floor

/-- The addresses to touch so that the whole range is provided. The address after the last one has
to be a word. -/
def touches (start stop stride : Nat) : Except Fault (List Nat) := do
  let first ← firstPoint start stride
  let addrs := points first stop stride
  check (first + addrs.length * stride < Word.limit) .overflow
  return addrs

theorem length_points (first stop stride : Nat) :
    (points first stop stride).length = (stop - first + (stride - 1)) / stride := by
  simp [points]

theorem mem_points {first stop stride a : Nat} (hs : 0 < stride) :
    a ∈ points first stop stride ↔ a < stop ∧ ∃ i, a = first + i * stride := by
  simp only [points, List.mem_map, List.mem_range, Nat.lt_div_iff_mul_lt hs]
  constructor
  · rintro ⟨i, hi, rfl⟩; exact ⟨by grind, i, rfl⟩
  · rintro ⟨h, i, rfl⟩; exact ⟨i, by grind, rfl⟩

end Tenured.Page
