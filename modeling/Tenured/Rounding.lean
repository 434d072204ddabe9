import Tenured.Fault

/-!
# Rounding

Rounding of words to multiples of an alignment, which is a power of two. On a power of two,
clearing the bits below the alignment is rounding down:

* `Rounding.isPowerOfTwo_iff`: the test by bits accepts the powers of two and nothing else.
* `Rounding.roundDown_of_isPowerOfTwo`: the result is the quotient times the alignment.
* `Rounding.roundUp_of_isPowerOfTwo`: rounding up wraps to zero exactly as the sum does.

`Rounding.up`, `Rounding.down` and `Rounding.padding` check the alignment first;
`Rounding.isMultiple` only needs it to be positive.
-/

namespace Tenured.Rounding

/-- Whether a number is a power of two: it is not zero and shares no bit with its predecessor. -/
def isPowerOfTwo (a : Nat) : Bool :=
  a != 0 && a &&& (a - 1) == 0

/-- A word without its bits below the alignment. -/
def clearBelow (v a : Nat) : Nat :=
  v - (v &&& (a - 1))

/-- The largest multiple of the alignment that is not above the word. -/
def roundDown (v a : Nat) : Nat :=
  clearBelow v a

/-- The least multiple of the alignment that is not below the word, or zero if that is no word. -/
def roundUp (v a : Nat) : Nat :=
  clearBelow (Word.addWrap v (a - 1)) a

/-- Rounding down to a multiple of an alignment, which must be a power of two. -/
def down (v a : Nat) : Except Fault Nat := do
  check (isPowerOfTwo a) .alignmentNotPowerOfTwo
  return roundDown v a

/-- Rounding up to a multiple of an alignment, which must be a power of two. -/
def up (v a : Nat) : Except Fault Nat := do
  check (isPowerOfTwo a) .alignmentNotPowerOfTwo
  return roundUp v a

/-- The distance to the next multiple of an alignment, modulo 2^64. -/
def padding (v a : Nat) : Except Fault Nat := do
  let next ← up v a
  return Word.subWrap next v

/-- Whether a word has no bit below the alignment. -/
def isMultiple (v a : Nat) : Except Fault Bool := do
  let mask ← Word.sub a 1
  return v &&& mask == 0

/-- The alignment of heap words. -/
def heapWord : Nat := 8

/-- The alignment that gives each item a cache line of its own. -/
def cacheLine : Nat := 64

theorem isPowerOfTwo_iff {a : Nat} : isPowerOfTwo a = true ↔ a.isPowerOfTwo := by
  simp only [isPowerOfTwo, Bool.and_eq_true, bne_iff_ne, ne_eq, beq_iff_eq]
  constructor
  · intro h
    exact (Nat.and_sub_one_eq_zero_iff_isPowerOfTwo h.1).1 h.2
  · intro h
    have ha := Nat.ne_of_gt (Nat.pos_of_isPowerOfTwo h)
    exact ⟨ha, (Nat.and_sub_one_eq_zero_iff_isPowerOfTwo ha).2 h⟩

/-- The bits below a power of two are the remainder. -/
theorem and_sub_one_of_isPowerOfTwo {v a : Nat} (h : a.isPowerOfTwo) : v &&& (a - 1) = v % a := by
  obtain ⟨k, rfl⟩ := h
  exact Nat.and_two_pow_sub_one_eq_mod ..

theorem roundDown_of_isPowerOfTwo {v a : Nat} (h : a.isPowerOfTwo) :
    roundDown v a = v / a * a := by
  have := Nat.div_add_mod v a
  rw [roundDown, clearBelow, and_sub_one_of_isPowerOfTwo h]
  rw [Nat.mul_comm] at this
  omega

theorem roundUp_of_isPowerOfTwo {v a : Nat} (h : a.isPowerOfTwo) :
    roundUp v a = Word.addWrap v (a - 1) / a * a :=
  roundDown_of_isPowerOfTwo h

theorem clearBelow_le (v a : Nat) : clearBelow v a ≤ v :=
  Nat.sub_le ..

end Tenured.Rounding
