import Mathlib.Data.List.TakeWhile
import Tenured.Text.Blank
import Tenured.Text.Decimal
import Tenured.Text.Fields

/-!
# Reading what was written

The functions that take a text apart undo the ways to put one together.

* `Text.Denotes` says which word a text is a numeral of, and `Text.readWord?_eq_some_iff` that it is
  read.
* `Text.trim` removes the blanks around a text that has none itself (`Text.trim_eq_of_blank`).
* `Text.cut?` and `Text.fields` find a separator exactly where one was put between texts without one
  (`Text.cut?_append`, `Text.fields_intercalate`).
-/

namespace Tenured.Text

/-! ## Numerals -/

/-- A text is a numeral of a word: one or more decimal digits, which may follow a plus sign. -/
inductive Denotes : List Char → Nat → Prop
  | plain {cs : List Char} {n : Nat} (hne : cs ≠ []) (hd : ∀ c ∈ cs, c.isDigit)
    (hv : digitsValue cs = n) (hlt : n < Word.limit) : Denotes cs n
  | signed {cs : List Char} {n : Nat} (hne : cs ≠ []) (hd : ∀ c ∈ cs, c.isDigit)
    (hv : digitsValue cs = n) (hlt : n < Word.limit) : Denotes ('+' :: cs) n

variable {cs : List Char} {n : Nat}

theorem readWord?_eq_some_iff : readWord? cs = some n ↔ Denotes cs n := by
  constructor
  · intro h
    unfold readWord? at h
    split at h
    · obtain ⟨hne, hd, hv, hlt⟩ := readDigits?_eq_some_iff.1 h
      exact .signed hne hd hv hlt
    · obtain ⟨hne, hd, hv, hlt⟩ := readDigits?_eq_some_iff.1 h
      exact .plain hne hd hv hlt
  · intro h
    cases h with
    | plain hne hd hv hlt =>
      have hplus : ∀ rest, cs ≠ '+' :: rest := by
        rintro rest rfl
        exact absurd (hd _ (.head _)) (by decide)
      rw [readWord?.eq_2 cs hplus]
      exact readDigits?_eq_some_iff.2 ⟨hne, hd, hv, hlt⟩
    | signed hne hd hv hlt => exact readDigits?_eq_some_iff.2 ⟨hne, hd, hv, hlt⟩

theorem Denotes.isDigit_or_eq (h : Denotes cs n) {c : Char} (hc : c ∈ cs) :
    c.isDigit ∨ c = '+' := by
  cases h with
  | plain _ hd => exact .inl (hd c hc)
  | signed _ hd => exact (List.mem_cons.1 hc).symm.imp (hd c) id

theorem Denotes.ne_nil (h : Denotes cs n) : cs ≠ [] := by
  cases h with
  | plain hne => exact hne
  | signed => exact List.cons_ne_nil _ _

theorem Denotes.lt (h : Denotes cs n) : n < Word.limit := by
  cases h with
  | plain _ _ _ hlt => exact hlt
  | signed _ _ _ hlt => exact hlt

/-- The digits of a word are a numeral of it. -/
theorem denotes_toDigits (h : n < Word.limit) : Denotes (Nat.toDigits 10 n) n :=
  .plain Nat.toDigits_ne_nil
    (fun _ hc => Nat.isDigit_of_mem_toDigits (by decide) (by decide) hc) (digitsValue_toDigits n) h

/-! ## Blanks -/

theorem isBlank_eq_false_of_isDigit {c : Char} (h : c.isDigit) : isBlank c = false := by
  obtain ⟨hle, hge⟩ : 48 ≤ c.toNat ∧ c.toNat ≤ 57 := by
    simpa [Char.isDigit, UInt32.le_iff_toNat_le] using h
  simp only [isBlank, blankRanges, List.any_cons, List.any_nil, Bool.or_false, Bool.or_eq_false_iff,
    Bool.and_eq_false_iff, decide_eq_false_iff_not]
  omega

theorem Denotes.isBlank_eq_false (h : Denotes cs n) {c : Char} (hc : c ∈ cs) :
    isBlank c = false := by
  rcases h.isDigit_or_eq hc with hd | rfl
  · exact isBlank_eq_false_of_isDigit hd
  · decide

/-- What is removed from the two ends of a text is blank. -/
theorem exists_eq_append_trim (cs : List Char) :
    ∃ l r, cs = l ++ trim cs ++ r ∧ (∀ c ∈ l, isBlank c) ∧ ∀ c ∈ r, isBlank c := by
  have hfront := List.takeWhile_append_dropWhile (p := isBlank) (l := cs)
  have hback := List.takeWhile_append_dropWhile (p := isBlank)
    (l := (cs.dropWhile isBlank).reverse)
  refine ⟨cs.takeWhile isBlank, ((cs.dropWhile isBlank).reverse.takeWhile isBlank).reverse, ?_,
    fun c hc => List.mem_takeWhile_imp hc,
    fun c hc => List.mem_takeWhile_imp (List.mem_reverse.1 hc)⟩
  rw [List.append_assoc, trim, ← List.reverse_append, hback, List.reverse_reverse, hfront]

theorem dropWhile_isBlank_eq {l x : List Char} (hl : ∀ c ∈ l, isBlank c)
    (hx : ∀ c ∈ x.head?, isBlank c = false) : (l ++ x).dropWhile isBlank = x := by
  rw [List.dropWhile_append_of_pos hl]
  cases x with
  | nil => rfl
  | cons c x => exact List.dropWhile_cons_of_neg (by simp [hx c rfl])

/-- Blanks around a text without blanks are removed. -/
theorem trim_eq_of_blank {l x r : List Char} (hl : ∀ c ∈ l, isBlank c) (hr : ∀ c ∈ r, isBlank c)
    (hne : x ≠ []) (hx : ∀ c ∈ x, isBlank c = false) : trim (l ++ x ++ r) = x := by
  have hfront : (l ++ (x ++ r)).dropWhile isBlank = x ++ r := by
    obtain ⟨c, x, rfl⟩ := List.exists_cons_of_ne_nil hne
    exact dropWhile_isBlank_eq hl fun d hd => hx d (Option.mem_some_iff.1 hd ▸ .head _)
  have hback : (r.reverse ++ x.reverse).dropWhile isBlank = x.reverse :=
    dropWhile_isBlank_eq (fun c hc => hr c (List.mem_reverse.1 hc))
      fun c hc => hx c (List.mem_reverse.1 (List.mem_of_mem_head? hc))
  rw [trim, List.append_assoc, hfront, List.reverse_append, hback, List.reverse_reverse]

/-! ## Separators -/

variable {sep : Char} {l r f : List Char} {fs gs : List (List Char)}

theorem cut?_eq_none_iff : cut? sep cs = none ↔ sep ∉ cs := by
  induction cs with
  | nil => simp [cut?]
  | cons c cs ih =>
    rw [cut?, List.mem_cons, not_or, ← ih]
    split
    · simp [*]
    · rw [Option.map_eq_none_iff, and_iff_right (Ne.symm ‹_›)]

theorem cut?_append (h : sep ∉ l) : cut? sep (l ++ sep :: r) = some (l, r) := by
  induction l with
  | nil => simp [cut?]
  | cons c l ih =>
    rw [List.mem_cons, not_or] at h
    rw [List.cons_append, cut?, if_neg (Ne.symm h.1), ih h.2]
    rfl

theorem fields_of_notMem (h : sep ∉ cs) : fields sep cs = [cs] := by
  induction cs with
  | nil => rfl
  | cons c cs ih =>
    rw [List.mem_cons, not_or] at h
    rw [fields, if_neg (Ne.symm h.1), ih h.2]

theorem fields_append (h : sep ∉ f) : fields sep (f ++ sep :: cs) = f :: fields sep cs := by
  induction f with
  | nil => rw [List.nil_append, fields, if_pos rfl]
  | cons c f ih =>
    rw [List.mem_cons, not_or] at h
    rw [List.cons_append, fields, if_neg (Ne.symm h.1), ih h.2]

theorem fields_intercalate_append (h : ∀ f ∈ fs, sep ∉ f) (hgs : gs ≠ []) :
    fields sep ([sep].intercalate (fs ++ gs)) = fs ++ fields sep ([sep].intercalate gs) := by
  induction fs with
  | nil => rfl
  | cons f fs ih =>
    obtain ⟨hf, hfs⟩ := List.forall_mem_cons.1 h
    have hrest : fs ++ gs ≠ [] := fun hnil => hgs (List.append_eq_nil_iff.1 hnil).2
    rw [List.cons_append, List.intercalate_cons_of_ne_nil hrest, List.append_assoc,
      List.singleton_append, fields_append hf, ih hfs, List.cons_append]

/-- Texts without the separator are found again. -/
theorem fields_intercalate (h : ∀ f ∈ fs, sep ∉ f) (hne : fs ≠ []) :
    fields sep ([sep].intercalate fs) = fs := by
  obtain ⟨init, last, rfl⟩ := (List.eq_nil_or_concat fs).resolve_left hne
  rw [List.concat_eq_append] at h ⊢
  obtain ⟨hinit, hlast⟩ := List.forall_mem_append.1 h
  rw [fields_intercalate_append hinit (List.cons_ne_nil _ _), List.intercalate_singleton,
    fields_of_notMem (hlast last (.head _))]

/-- They are found first, whatever follows. -/
theorem exists_fields_eq_append (h : ∀ f ∈ fs, sep ∉ f) (hne : fs ++ gs ≠ []) :
    ∃ rest, fields sep ([sep].intercalate (fs ++ gs)) = fs ++ rest := by
  by_cases hgs : gs = []
  · subst hgs
    rw [List.append_nil] at hne ⊢
    exact ⟨[], by rw [fields_intercalate h hne, List.append_nil]⟩
  · exact ⟨_, fields_intercalate_append h hgs⟩

end Tenured.Text
