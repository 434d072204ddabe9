import Tenured.Json.Quoted

/-!
# Passing over JSON values

A reader of records passes over the values that it does not know. `Json.skipValue?` is what follows
a value of any shape, nested to any depth, or `none` if the text does not begin with a value. It
goes through the text once and keeps the list of the arrays and objects that are still open.
-/

namespace Tenured.Json

/-- Whether a character may stand between the parts of a JSON text. -/
def isSpace (c : Char) : Bool :=
  c == ' ' || c == '\n' || c == '\t' || c == '\r'

/-- A text without the spaces it begins with. -/
def skipSpace (s : List Char) : List Char :=
  s.dropWhile isSpace

/-- What follows a row of one or more digits. -/
def skipDigits? (s : List Char) : Option (List Char) :=
  match s with
  | [] => none
  | c :: rest => if c.isDigit then some (rest.dropWhile Char.isDigit) else none

/-- What follows the exponent of a number, if there is one. -/
def skipExponent? : List Char → Option (List Char)
  | [] => some []
  | c :: rest =>
    if c = 'e' ∨ c = 'E' then
      match rest with
      | '+' :: rest => skipDigits? rest
      | '-' :: rest => skipDigits? rest
      | rest => skipDigits? rest
    else some (c :: rest)

/-- What follows the fraction and the exponent of a number, if there are any. -/
def skipFraction? : List Char → Option (List Char)
  | '.' :: rest => (skipDigits? rest).bind skipExponent?
  | rest => skipExponent? rest

/-- What follows a number without a sign. A leading zero stands alone. -/
def skipUnsigned? : List Char → Option (List Char)
  | [] => none
  | c :: rest =>
    if c = '0' then
      match rest with
      | [] => some []
      | d :: rest => if d.isDigit then none else skipFraction? (d :: rest)
    else if c.isDigit then skipFraction? (rest.dropWhile Char.isDigit)
    else none

/-- What follows the letters of a word. -/
def skipLetters? : List Char → List Char → Option (List Char)
  | [], s => some s
  | _ :: _, [] => none
  | w :: ws, c :: s => if w = c then skipLetters? ws s else none

/-- What follows a value that is neither an array nor an object and begins with `c`. -/
def skipAtom? (c : Char) (rest : List Char) : Option (List Char) :=
  if c = '"' then skipQuoted? rest
  else if c = 'n' then skipLetters? "ull".toList rest
  else if c = 't' then skipLetters? "rue".toList rest
  else if c = 'f' then skipLetters? "alse".toList rest
  else if c = '-' then skipUnsigned? rest
  else skipUnsigned? (c :: rest)

/-- What follows a key and its colon. -/
def skipKey? (s : List Char) : Option (List Char) :=
  match skipSpace s with
  | '"' :: rest =>
    match skipQuoted? rest with
    | none => none
    | some rest =>
      match skipSpace rest with
      | ':' :: rest => some rest
      | _ => none
  | _ => none

/-- The kinds of value that hold others. -/
inductive Frame
  | array
  | object
deriving DecidableEq

/-- The bracket that ends an array or an object. -/
def Frame.closer : Frame → Char
  | array => ']'
  | object => '}'

/-- What may come next while values are open. -/
inductive Awaits
  /-- A value. -/
  | value
  /-- The first item of the innermost open value, or its end. -/
  | first
  /-- A further item of the innermost open value, or its end. -/
  | next
deriving DecidableEq

theorem length_skipSpace_le (s : List Char) : (skipSpace s).length ≤ s.length :=
  (List.dropWhile_suffix _).length_le

theorem length_of_skipDigits? {s r : List Char} (h : skipDigits? s = some r) :
    r.length < s.length := by
  cases s with
  | nil => simp [skipDigits?] at h
  | cons c s =>
    have := (List.dropWhile_suffix Char.isDigit (l := s)).length_le
    grind [skipDigits?]

theorem length_of_skipExponent? {s r : List Char} (h : skipExponent? s = some r) :
    r.length ≤ s.length := by
  unfold skipExponent? at h
  grind [→ length_of_skipDigits?]

theorem length_of_skipFraction? {s r : List Char} (h : skipFraction? s = some r) :
    r.length ≤ s.length := by
  unfold skipFraction? at h
  grind [→ length_of_skipDigits?, → length_of_skipExponent?, Option.bind_eq_some_iff]

theorem length_of_skipUnsigned? {s r : List Char} (h : skipUnsigned? s = some r) :
    r.length < s.length := by
  cases s with
  | nil => simp [skipUnsigned?] at h
  | cons c s =>
    have := (List.dropWhile_suffix Char.isDigit (l := s)).length_le
    unfold skipUnsigned? at h
    grind [→ length_of_skipFraction?]

theorem length_of_skipLetters? {w s r : List Char} (h : skipLetters? w s = some r) :
    r.length ≤ s.length := by
  fun_induction skipLetters? w s <;> grind

theorem length_of_skipAtom? {c : Char} {s r : List Char} (h : skipAtom? c s = some r) :
    r.length ≤ s.length := by
  unfold skipAtom? at h
  grind [→ length_of_skipQuoted?, → length_of_skipLetters?, → length_of_skipUnsigned?]

theorem length_of_skipKey? {s r : List Char} (h : skipKey? s = some r) : r.length < s.length := by
  have := length_skipSpace_le s
  unfold skipKey? at h
  grind [→ length_of_skipQuoted?, length_skipSpace_le]

/-- What follows the values that are still open, of which the innermost is the first of `frames`. -/
def skipOpen? (awaits : Awaits) (frames : List Frame) (s : List Char) : Option (List Char) :=
  match awaits, frames, _ : skipSpace s with
  | .value, _, [] => none
  | .value, frames, c :: rest =>
    if c = '[' then skipOpen? .first (.array :: frames) rest
    else if c = '\x7b' then skipOpen? .first (.object :: frames) rest
    else
      match _ : skipAtom? c rest with
      | none => none
      | some rest => skipOpen? .next frames rest
  | _, [], _ => some s
  | _, _ :: _, [] => none
  | .first, .array :: frames, c :: rest =>
    if c = ']' then skipOpen? .next frames rest
    else skipOpen? .value (.array :: frames) (c :: rest)
  | .first, .object :: frames, c :: rest =>
    if c = '\x7d' then skipOpen? .next frames rest
    else
      match _ : skipKey? (c :: rest) with
      | none => none
      | some rest => skipOpen? .value (.object :: frames) rest
  | .next, frame :: frames, c :: rest =>
    if c = frame.closer then skipOpen? .next frames rest
    else if c = ',' then
      match frame with
      | .array => skipOpen? .value (.array :: frames) rest
      | .object =>
        match _ : skipKey? rest with
        | none => none
        | some rest => skipOpen? .value (.object :: frames) rest
    else none
termination_by (s.length, if awaits = .first then 1 else 0)
decreasing_by
  all_goals
    have := length_skipSpace_le s
    simp only [Prod.lex_def]
    grind [→ length_of_skipAtom?, → length_of_skipKey?]

/-- What follows a value of any shape. -/
def skipValue? (s : List Char) : Option (List Char) :=
  skipOpen? .value [] s

end Tenured.Json
