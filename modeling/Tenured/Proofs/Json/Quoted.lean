import Tenured.Json.Quoted

/-!
# Quoted text is read back

`Json.quote` writes a text and `Json.readQuoted?` reads it.

* `Json.readQuoted?_escape`: the written form of a character is read as that character, whatever
  follows it;
* `Json.readQuoted?_flatMap_escape`: so a text that was written is read up to its closing quote.
-/

namespace Tenured.Json

/-- The four digits of a control character, of which the last two vary, denote it. -/
theorem hexUnit?_padZeros : ∀ n < 32,
    Text.padZeros 4 (Text.hexDigits n) =
      ['0', '0', Nat.digitChar (n / 16), Nat.digitChar (n % 16)] ∧
    hexUnit? '0' '0' (Nat.digitChar (n / 16)) (Nat.digitChar (n % 16)) = some n := by
  decide

variable {c : Char} {t : List Char}

/-- A character that stands for itself. -/
theorem readQuoted?_cons (hq : c ≠ '"') (hb : c ≠ '\\') (hs : ¬ c < ' ') :
    readQuoted? (c :: t) = (readQuoted? t).map fun p => (c :: p.1, p.2) := by
  have hn : ¬ (c < ' ' ∨ c = '\\') := not_or.2 ⟨hs, hb⟩
  rw [readQuoted?]
  · exact if_neg hn
  · exact hq
  · intro a b c d rest h _
    exact hb h
  · intro c rest h _
    exact hb h

/-- The escape of a control character. -/
theorem readQuoted?_hex (hs : c < ' ') :
    readQuoted? ('\\' :: 'u' :: Text.padZeros 4 (Text.hexDigits c.toNat) ++ t) =
      (readQuoted? t).map fun p => (c :: p.1, p.2) := by
  have hlt : c.toNat < 32 := hs
  obtain ⟨hd, hu⟩ := hexUnit?_padZeros c.toNat hlt
  have hlow : isLowSurrogate c.toNat = false := by simp [isLowSurrogate]; omega
  have hhigh : isHighSurrogate c.toNat = false := by simp [isHighSurrogate]; omega
  rw [hd]
  simp only [List.cons_append, List.nil_append, readQuoted?, hu, hlow, hhigh, Bool.false_eq_true,
    if_false, Char.ofNat_toNat]

/-- The written form of a character is read as that character. -/
theorem readQuoted?_escape (c : Char) (t : List Char) :
    readQuoted? (escape c ++ t) = (readQuoted? t).map fun p => (c :: p.1, p.2) := by
  unfold escape
  split
  · subst c; rfl
  split
  · subst c; rfl
  split
  · subst c; rfl
  split
  · subst c; rfl
  split
  · subst c; rfl
  split
  · subst c; rfl
  split
  · subst c; rfl
  split
  · exact readQuoted?_hex ‹_›
  · exact readQuoted?_cons ‹_› ‹_› ‹_›

/-- A text is read back up to its closing quote, whatever follows. -/
theorem readQuoted?_flatMap_escape (s t : List Char) :
    readQuoted? (s.flatMap escape ++ '"' :: t) = some (s, t) := by
  induction s with
  | nil => rfl
  | cons c s ih => rw [List.flatMap_cons, List.append_assoc, readQuoted?_escape, ih]; rfl

/-- A quoted text begins with a quote, and the rest is read as the text. -/
theorem quote_append (s t : List Char) :
    quote s ++ t = '"' :: (s.flatMap escape ++ '"' :: t) := by
  simp [quote]

example : readQuoted? ("a\"\\\n\x01é".toList.flatMap escape ++ "\"!".toList) =
    some ("a\"\\\n\x01é".toList, ['!']) := by decide

end Tenured.Json
