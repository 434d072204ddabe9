/-!
# Numerals

The ways in which messages write a number. An address is written `0x` and then its lower-case
hexadecimal digits: without padding inside a sentence (`Text.hex`), and with sixteen digits where
addresses stand in a column (`Text.hexPadded`). The parts of a date have leading zeros
(`Text.padded`), and a size is given in whole kilobytes (`Text.kilobytes`).
-/

namespace Tenured.Text

/-- The lower-case hexadecimal digits of a number, without leading zeros. -/
def hexDigits (n : Nat) : List Char :=
  Nat.toDigits 16 n

/-- An address as messages write it. -/
def hex (n : Nat) : String :=
  "0x" ++ String.ofList (hexDigits n)

/-- A list of digits brought to at least `width` digits by zeros in front. -/
def padZeros (width : Nat) (digits : List Char) : List Char :=
  List.replicate (width - digits.length) '0' ++ digits

/-- An address with sixteen digits, as a column of addresses shows it. -/
def hexPadded (n : Nat) : String :=
  "0x" ++ String.ofList (padZeros 16 (hexDigits n))

/-- A decimal number with at least `width` digits. -/
def padded (width n : Nat) : String :=
  String.ofList (padZeros width (Nat.toDigits 10 n))

/-- Whole kilobytes of a size in bytes. -/
def kilobytes (bytes : Nat) : Nat :=
  bytes / 1024

end Tenured.Text
