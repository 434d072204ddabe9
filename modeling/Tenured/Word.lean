/-!
# Machine words

Addresses, sizes and counts are natural numbers below `Word.limit`, 2^64. A sum, difference or
product that leaves this range is one of three things, and each has its own operation: a fault
(`Word.add?`, `Word.sub?`, `Word.mul?` answer `none`, and the caller raises `Fault.overflow`), the
remainder modulo 2^64 (`Word.addWrap`, `Word.subWrap`), or the nearest word (`Word.addSat`,
`Word.mulSat`).
-/

namespace Tenured.Word

/-- One more than the largest word. -/
abbrev limit : Nat := 18446744073709551616

/-- The largest word. -/
abbrev max : Nat := 18446744073709551615

theorem limit_eq : limit = 1 <<< 64 := rfl

theorem max_add_one : max + 1 = limit := rfl

/-- The sum, if it is a word. -/
def add? (a b : Nat) : Option Nat :=
  if a + b < limit then some (a + b) else none

/-- The difference, if it is a word. -/
def sub? (a b : Nat) : Option Nat :=
  if b ≤ a then some (a - b) else none

/-- The product, if it is a word. -/
def mul? (a b : Nat) : Option Nat :=
  if a * b < limit then some (a * b) else none

/-- The sum modulo 2^64. -/
def addWrap (a b : Nat) : Nat :=
  (a + b) % limit

/-- The difference of two words modulo 2^64. -/
def subWrap (a b : Nat) : Nat :=
  if b ≤ a then a - b else limit - (b - a)

/-- The sum, or the largest word if the sum is above it. -/
def addSat (a b : Nat) : Nat :=
  min (a + b) max

/-- The product, or the largest word if the product is above it. -/
def mulSat (a b : Nat) : Nat :=
  min (a * b) max

theorem add?_eq_some_iff {a b c : Nat} : add? a b = some c ↔ a + b < limit ∧ c = a + b := by
  unfold add?; split <;> grind

theorem sub?_eq_some_iff {a b c : Nat} : sub? a b = some c ↔ b ≤ a ∧ c = a - b := by
  unfold sub?; split <;> grind

theorem mul?_eq_some_iff {a b c : Nat} : mul? a b = some c ↔ a * b < limit ∧ c = a * b := by
  unfold mul?; split <;> grind

theorem addWrap_lt (a b : Nat) : addWrap a b < limit :=
  Nat.mod_lt _ (by decide)

theorem addWrap_of_lt {a b : Nat} (h : a + b < limit) : addWrap a b = a + b :=
  Nat.mod_eq_of_lt h

end Tenured.Word
