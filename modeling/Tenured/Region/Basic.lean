import Tenured.Text.Numeral

/-!
# Regions

A region is a half-open range `[start, stop)` of addresses. Every range that the generation speaks
of is one: the reservation, the committed part, the covered part, a block of the iteration.

An address lies in a region, `a ∈ r`, when it is at least the start and below the end. An empty
region holds no address, and still has a position.

* `Region.mem_inter`: the overlap of two regions holds the addresses that lie in both.
-/

namespace Tenured

/-- The addresses from `start` up to, but not including, `stop`. -/
structure Region where
  start : Nat
  stop : Nat
  start_le_stop : start ≤ stop := by omega
deriving DecidableEq

namespace Region

instance : Membership Nat Region :=
  ⟨fun r a => r.start ≤ a ∧ a < r.stop⟩

instance (a : Nat) (r : Region) : Decidable (a ∈ r) :=
  inferInstanceAs (Decidable (r.start ≤ a ∧ a < r.stop))

theorem mem_def {a : Nat} {r : Region} : a ∈ r ↔ r.start ≤ a ∧ a < r.stop := Iff.rfl

/-- The empty region at an address. -/
def emptyAt (a : Nat) : Region :=
  ⟨a, a, Nat.le_refl a⟩

/-- The empty region at address zero. -/
def empty : Region :=
  emptyAt 0

instance : Inhabited Region := ⟨empty⟩

/-- The number of bytes in a region. -/
def size (r : Region) : Nat :=
  r.stop - r.start

/-- The number of whole eight-byte words that fit in a region. -/
def words (r : Region) : Nat :=
  r.size / 8

/-- Whether a region holds no address. -/
def isEmpty (r : Region) : Bool :=
  r.start == r.stop

/-- Whether `s` lies within `r`. An empty region lies within every region. -/
def includes (r s : Region) : Bool :=
  s.isEmpty || (r.start ≤ s.start && s.stop ≤ r.stop)

/-- The overlap of two regions, empty at the larger start if they share no address. -/
def inter (r s : Region) : Region :=
  ⟨max r.start s.start, max (min r.stop s.stop) (max r.start s.start), Nat.le_max_right ..⟩

/-- A region as messages write it. -/
protected def toString (r : Region) : String :=
  "[" ++ Text.hex r.start ++ ", " ++ Text.hex r.stop ++ ")"

instance : ToString Region := ⟨Region.toString⟩

/-- A region with the names of its bounds, in decimal. -/
def describe (r : Region) : String :=
  "MemRegion \x7b start: " ++ toString r.start ++ ", end: " ++ toString r.stop ++ " \x7d"

theorem isEmpty_iff {r : Region} : r.isEmpty = true ↔ r.start = r.stop := by
  simp [isEmpty]

theorem includes_iff {r s : Region} :
    r.includes s = true ↔ s.start = s.stop ∨ r.start ≤ s.start ∧ s.stop ≤ r.stop := by
  simp only [includes, Bool.or_eq_true, isEmpty_iff, Bool.and_eq_true, decide_eq_true_eq]

/-- What lies within a region holds only its addresses. -/
theorem mem_of_includes {r s : Region} (h : r.includes s = true) {a : Nat} (ha : a ∈ s) :
    a ∈ r := by
  rw [mem_def] at *
  rw [includes_iff] at h
  omega

theorem mem_inter {r s : Region} {a : Nat} : a ∈ r.inter s ↔ a ∈ r ∧ a ∈ s := by
  simp only [mem_def, inter]; omega

end Region

end Tenured
