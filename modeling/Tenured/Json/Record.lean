import Tenured.Json.Skip
import Tenured.Text.Decimal

/-!
# Flat JSON records

A record is a JSON object whose members are texts and machine words. `Json.Record.print` writes one
without spaces, in the order of its fields.

`Json.Record.read?` reads one against a schema. The members may come in any order, and those that
the schema does not name are passed over; a named member must be there exactly once, and hold a
value of its kind. An array of exactly the fields, in order, is accepted too. A word is a row of
digits below 2^64 without a sign, a leading zero, a fraction or an exponent.
-/

namespace Tenured.Json

/-- The kinds of value that a record holds. -/
inductive Kind
  | text
  | word
deriving DecidableEq

/-- A value of a record. -/
inductive Scalar
  | text (s : String)
  | word (n : Nat)
deriving DecidableEq

/-- The kind of a value. -/
def Scalar.kind : Scalar → Kind
  | text _ => .text
  | word _ => .word

/-- The written form of a value. -/
def Scalar.print : Scalar → List Char
  | text s => quote s.toList
  | word n => Nat.toDigits 10 n

/-- The name and the kind of a member. -/
structure Field where
  name : String
  kind : Kind
deriving DecidableEq

/-- The number that a text begins with, and what follows it. -/
def readNumber? (s : List Char) : Option (Nat × List Char) :=
  let digits := s.takeWhile Char.isDigit
  let rest := s.dropWhile Char.isDigit
  match Text.readDigits? digits with
  | none => none
  | some n =>
    if digits.head? = some '0' ∧ digits.length ≠ 1 then none
    else if rest.head? = some '.' ∨ rest.head? = some 'e' ∨ rest.head? = some 'E' then none
    else some (n, rest)

/-- The value of the given kind that a text begins with, and what follows it. -/
def readScalar? (kind : Kind) (s : List Char) : Option (Scalar × List Char) :=
  match kind, skipSpace s with
  | .text, '"' :: rest => (readQuoted? rest).map fun p => (.text (String.ofList p.1), p.2)
  | .text, _ => none
  | .word, s => (readNumber? s).map fun p => (.word p.1, p.2)

/-- The key that a text begins with, and what follows its colon. -/
def readKey? (s : List Char) : Option (String × List Char) :=
  match skipSpace s with
  | '"' :: rest =>
    match readQuoted? rest with
    | none => none
    | some (key, rest) =>
      match skipSpace rest with
      | ':' :: rest => some (String.ofList key, rest)
      | _ => none
  | _ => none

namespace Record

/-- The members of a record, with commas between them. -/
def printMembers : List (String × Scalar) → List Char
  | [] => []
  | [m] => quote m.1.toList ++ ':' :: m.2.print
  | m :: ms => quote m.1.toList ++ ':' :: m.2.print ++ ',' :: printMembers ms

/-- The written form of a record. -/
def print (members : List (String × Scalar)) : String :=
  String.ofList ('\x7b' :: printMembers members ++ ['\x7d'])

/-- The member that a text begins with, added to those found before, and what follows it. -/
def readMember? (schema : List Field) (found : List (String × Scalar)) (s : List Char) :
    Option (List (String × Scalar) × List Char) := do
  let (key, rest) ← readKey? s
  match schema.find? (·.name == key) with
  | none => return (found, ← skipValue? rest)
  | some field =>
    if (found.lookup key).isSome then none
    else
      let (value, rest) ← readScalar? field.kind rest
      return (found ++ [(key, value)], rest)

/-- The members of an object up to its end, added to those found before, and what follows the end.
At most `fuel` members are read. -/
def readMembers? (schema : List Field) :
    Nat → List (String × Scalar) → List Char → Option (List (String × Scalar) × List Char)
  | 0, _, _ => none
  | fuel + 1, found, s => do
    let (found, rest) ← readMember? schema found s
    match skipSpace rest with
    | '\x7d' :: rest => return (found, rest)
    | ',' :: rest => readMembers? schema fuel found rest
    | _ => none

/-- The values of an array up to its end, one for each field, and what follows the end. -/
def readElements? : List Field → List Char → Option (List Scalar × List Char)
  | [], _ => none
  | field :: fields, s => do
    let (value, rest) ← readScalar? field.kind s
    match fields, skipSpace rest with
    | [], ']' :: rest => return ([value], rest)
    | _ :: _, ',' :: rest =>
      let (values, rest) ← readElements? fields rest
      return (value :: values, rest)
    | _, _ => none

/-- The values of the fields among the members found. -/
def collect? (schema : List Field) (found : List (String × Scalar)) : Option (List Scalar) :=
  schema.mapM fun field => found.lookup field.name

/-- The values of the record that a text begins with, in the order of the schema, and what follows
it. -/
def readValues? (schema : List Field) (s : List Char) : Option (List Scalar × List Char) :=
  match skipSpace s with
  | '[' :: rest => readElements? schema rest
  | '\x7b' :: rest => do
    let (found, rest) ←
      match skipSpace rest with
      | '\x7d' :: rest => some ([], rest)
      | _ => readMembers? schema rest.length [] rest
    return (← collect? schema found, rest)
  | _ => none

/-- The values of the record that a text holds, in the order of the schema. -/
def read? (schema : List Field) (text : String) : Option (List Scalar) := do
  let (values, rest) ← readValues? schema text.toList
  if skipSpace rest = [] then return values else none

end Record

end Tenured.Json
