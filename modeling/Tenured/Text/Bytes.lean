/-!
# The bytes of a text

A text is kept as the bytes of its characters in UTF-8, one character after another. `Text.bytes`
lists them, and `Text.numberList` writes a list of numbers between brackets.
-/

namespace Tenured.Text

/-- The bytes of a text in UTF-8. -/
def bytes (s : String) : List Nat :=
  (s.toList.flatMap String.utf8EncodeChar).map UInt8.toNat

/-- Numbers in decimal between brackets, with commas between them. -/
def numberList (ns : List Nat) : String :=
  "[" ++ ", ".intercalate (ns.map toString) ++ "]"

end Tenured.Text
