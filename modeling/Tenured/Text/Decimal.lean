import Tenured.Word

/-!
# Decimal words

`Text.readWord?` reads a machine word: an optional plus sign, then one or more ASCII digits and
nothing else, with a value below 2^64. Leading zeros are allowed.
-/

namespace Tenured.Text

/-- The value of a row of digits, most significant first. -/
def digitsValue (cs : List Char) : Nat :=
  Nat.ofDigitChars 10 cs 0

/-- The word that a row of one or more digits denotes. -/
def readDigits? (cs : List Char) : Option Nat :=
  if cs ≠ [] ∧ cs.all Char.isDigit ∧ digitsValue cs < Word.limit then some (digitsValue cs)
  else none

/-- The word that a text denotes, if it is a decimal number with at most a plus sign in front. -/
def readWord? : List Char → Option Nat
  | '+' :: cs => readDigits? cs
  | cs => readDigits? cs

theorem digitsValue_toDigits (n : Nat) : digitsValue (Nat.toDigits 10 n) = n :=
  Nat.ofDigitChars_toDigits (by decide) (by decide)

theorem readDigits?_eq_some_iff {cs : List Char} {n : Nat} :
    readDigits? cs = some n ↔
      cs ≠ [] ∧ (∀ c ∈ cs, c.isDigit) ∧ digitsValue cs = n ∧ n < Word.limit := by
  unfold readDigits?
  split
  · rename_i h; simp_all only [List.all_eq_true, Option.some.injEq]; grind
  · rename_i h; simp_all only [List.all_eq_true, reduceCtorEq, false_iff]; grind

end Tenured.Text
