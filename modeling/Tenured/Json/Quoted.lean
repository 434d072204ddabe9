import Tenured.Text.Numeral

/-!
# Quoted JSON text

A JSON string stands between quotes. `Json.escape` writes a character: a quote, a backslash and the
control characters below a space are escaped, everything else stands for itself. `Json.readQuoted?`
reads what follows an opening quote, with every escape that JSON knows.

* `Json.length_of_skipQuoted?`: what follows a string is shorter than what it was read from.
-/

namespace Tenured.Json

/-- The written form of a character inside a string. -/
def escape (c : Char) : List Char :=
  if c = '"' then ['\\', '"']
  else if c = '\\' then ['\\', '\\']
  else if c = '\x08' then ['\\', 'b']
  else if c = '\x0c' then ['\\', 'f']
  else if c = '\n' then ['\\', 'n']
  else if c = '\r' then ['\\', 'r']
  else if c = '\t' then ['\\', 't']
  else if c < ' ' then '\\' :: 'u' :: Text.padZeros 4 (Text.hexDigits c.toNat)
  else [c]

/-- A text between quotes. -/
def quote (s : List Char) : List Char :=
  '"' :: s.flatMap escape ++ ['"']

/-- The value of a hexadecimal digit. -/
def hexValue? (c : Char) : Option Nat :=
  if '0' ≤ c ∧ c ≤ '9' then some (c.toNat - '0'.toNat)
  else if 'a' ≤ c ∧ c ≤ 'f' then some (c.toNat - 'a'.toNat + 10)
  else if 'A' ≤ c ∧ c ≤ 'F' then some (c.toNat - 'A'.toNat + 10)
  else none

/-- The value of four hexadecimal digits. -/
def hexUnit? (a b c d : Char) : Option Nat := do
  let a ← hexValue? a
  let b ← hexValue? b
  let c ← hexValue? c
  let d ← hexValue? d
  return ((a * 16 + b) * 16 + c) * 16 + d

/-- The character that a letter after a backslash stands for. -/
def unescape? : Char → Option Char
  | '"' => some '"'
  | '\\' => some '\\'
  | '/' => some '/'
  | 'b' => some '\x08'
  | 'f' => some '\x0c'
  | 'n' => some '\n'
  | 'r' => some '\r'
  | 't' => some '\t'
  | _ => none

/-- Whether a unit of UTF-16 is the first of a pair. -/
def isHighSurrogate (u : Nat) : Bool :=
  0xd800 ≤ u && u < 0xdc00

/-- Whether a unit of UTF-16 is the second of a pair. -/
def isLowSurrogate (u : Nat) : Bool :=
  0xdc00 ≤ u && u < 0xe000

/-- The character that a pair of units of UTF-16 denotes. -/
def pairChar (high low : Nat) : Char :=
  Char.ofNat (0x10000 + (high - 0xd800) * 0x400 + (low - 0xdc00))

/-- The text up to the closing quote, and what follows the quote. -/
def readQuoted? : List Char → Option (List Char × List Char)
  | [] => none
  | '"' :: rest => some ([], rest)
  | '\\' :: 'u' :: a :: b :: c :: d :: rest =>
    match hexUnit? a b c d with
    | none => none
    | some u =>
      if isLowSurrogate u then none
      else if isHighSurrogate u then
        match rest with
        | '\\' :: 'u' :: e :: f :: g :: h :: rest =>
          match hexUnit? e f g h with
          | none => none
          | some v =>
            if isLowSurrogate v then (readQuoted? rest).map fun p => (pairChar u v :: p.1, p.2)
            else none
        | _ => none
      else (readQuoted? rest).map fun p => (Char.ofNat u :: p.1, p.2)
  | '\\' :: c :: rest =>
    match unescape? c with
    | none => none
    | some c => (readQuoted? rest).map fun p => (c :: p.1, p.2)
  | c :: rest =>
    if c < ' ' ∨ c = '\\' then none else (readQuoted? rest).map fun p => (c :: p.1, p.2)

/-- What follows the closing quote of a string whose text does not matter. The digits after `\u`
need not denote a character. -/
def skipQuoted? : List Char → Option (List Char)
  | [] => none
  | '"' :: rest => some rest
  | '\\' :: 'u' :: a :: b :: c :: d :: rest =>
    if (hexUnit? a b c d).isSome then skipQuoted? rest else none
  | '\\' :: c :: rest => if (unescape? c).isSome then skipQuoted? rest else none
  | c :: rest => if c < ' ' ∨ c = '\\' then none else skipQuoted? rest

theorem length_of_skipQuoted? {s r : List Char} (h : skipQuoted? s = some r) :
    r.length < s.length := by
  fun_induction skipQuoted? s <;> (try simp only [List.length_cons]) <;> grind

end Tenured.Json
