import Tenured.Json.Record
import Tenured.Proofs.Json.Quoted

/-!
# Records are read back

`Json.Record.print` writes a record and `Json.Record.read?` reads it against a schema.

* `Json.readScalar?_print`: a value is read back from its written form, if what follows it is a
  comma or the end of an object;
* `Json.Record.readMembers?_printMembers`: so are the members of an object, if no two of them have
  the same name;
* `Json.Record.read?_print`: so is a record;
* `Json.Record.fits_of_read?`: whatever text a record is read from, its numbers are words.
-/

namespace Tenured.Json

/-! ## Numbers -/

theorem digitChar_ne_zero : ∀ d < 10, d ≠ 0 → d.digitChar ≠ '0' := by decide

/-- A number other than zero is written without a leading zero. -/
theorem head?_toDigits {n : Nat} (h : n ≠ 0) : (Nat.toDigits 10 n).head? ≠ some '0' := by
  induction n using Nat.strongRecOn with
  | ind n ih =>
    by_cases hn : n < 10
    · rw [Nat.toDigits_of_lt_base hn]
      simpa using digitChar_ne_zero n hn h
    · rw [Nat.toDigits_of_base_le (by decide) (by omega), List.head?_append,
        Option.or_of_isSome (by simp [Nat.toDigits_ne_nil])]
      exact ih (n / 10) (by omega) (by omega)

/-- What ends a value inside an object. -/
def Ends (c : Char) : Prop :=
  c = ',' ∨ c = '\x7d'

variable {c : Char} {t : List Char}

theorem readNumber?_toDigits {n : Nat} (hn : n < Word.limit) (hc : Ends c) :
    readNumber? (Nat.toDigits 10 n ++ c :: t) = some (n, c :: t) := by
  have hd : ∀ d ∈ Nat.toDigits 10 n, d.isDigit := fun d hd =>
    Nat.isDigit_of_mem_toDigits (by decide) (by decide) hd
  have hc' : c.isDigit = false ∧ c ≠ '.' ∧ c ≠ 'e' ∧ c ≠ 'E' := by
    rcases hc with rfl | rfl <;> decide
  obtain ⟨hcd, hdot, he, hE⟩ := hc'
  have htake : (Nat.toDigits 10 n ++ c :: t).takeWhile Char.isDigit = Nat.toDigits 10 n := by
    rw [List.takeWhile_append_of_pos hd, List.takeWhile_cons_of_neg (by simp [hcd]),
      List.append_nil]
  have hdrop : (Nat.toDigits 10 n ++ c :: t).dropWhile Char.isDigit = c :: t := by
    rw [List.dropWhile_append_of_pos hd, List.dropWhile_cons_of_neg (by simp [hcd])]
  have hread : Text.readDigits? (Nat.toDigits 10 n) = some n :=
    Text.readDigits?_eq_some_iff.2 ⟨Nat.toDigits_ne_nil, hd, Text.digitsValue_toDigits n, hn⟩
  have hlead : ¬ ((Nat.toDigits 10 n).head? = some '0' ∧ (Nat.toDigits 10 n).length ≠ 1) := by
    rintro ⟨hh, hl⟩
    by_cases h0 : n = 0
    · subst h0; exact hl rfl
    · exact head?_toDigits h0 hh
  unfold readNumber?
  simp only [htake, hdrop, hread]
  rw [if_neg hlead, if_neg (by simp [hdot, he, hE])]

theorem lt_of_readNumber? {s : List Char} {p : Nat × List Char} (h : readNumber? s = some p) :
    p.1 < Word.limit := by
  unfold readNumber? at h
  simp only at h
  split at h
  · cases h
  · rename_i n hr
    split at h
    · cases h
    split at h
    · cases h
    · cases h; exact (Text.readDigits?_eq_some_iff.1 hr).2.2.2

/-! ## Values -/

/-- Whether a number is a word. -/
def Scalar.Fits : Scalar → Prop
  | text _ => True
  | word n => n < Word.limit

instance : DecidablePred Scalar.Fits
  | .text _ => inferInstanceAs (Decidable True)
  | .word n => inferInstanceAs (Decidable (n < Word.limit))

theorem skipSpace_cons (h : isSpace c = false) : skipSpace (c :: t) = c :: t :=
  List.dropWhile_cons_of_neg (by simp [h])

theorem skipSpace_toDigits (n : Nat) :
    skipSpace (Nat.toDigits 10 n ++ t) = Nat.toDigits 10 n ++ t := by
  cases h : Nat.toDigits 10 n with
  | nil => exact absurd h Nat.toDigits_ne_nil
  | cons d ds =>
    have hd : d.isDigit := Nat.isDigit_of_mem_toDigits (b := 10) (n := n) (by decide) (by decide)
      (by rw [h]; exact List.mem_cons_self)
    have hs : ¬ isSpace d = true := fun hs => by
      simp only [isSpace, Bool.or_eq_true, beq_iff_eq] at hs
      rcases hs with ((rfl | rfl) | rfl) | rfl <;> exact absurd hd (by decide)
    exact skipSpace_cons (Bool.eq_false_iff.2 hs)

theorem readScalar?_print {v : Scalar} (hv : v.Fits) (hc : Ends c) :
    readScalar? v.kind (v.print ++ c :: t) = some (v, c :: t) := by
  cases v with
  | text s =>
    rw [Scalar.print, quote_append]
    simp only [Scalar.kind, readScalar?, skipSpace_cons (show isSpace '"' = false from rfl),
      readQuoted?_flatMap_escape, Option.map_some, String.ofList_toList]
  | word n =>
    simp only [Scalar.kind, Scalar.print, readScalar?, skipSpace_toDigits,
      readNumber?_toDigits hv hc, Option.map_some]

theorem fits_of_readScalar? {k : Kind} {s : List Char} {v : Scalar}
    (h : readScalar? k s = some (v, t)) : v.Fits := by
  cases k with
  | text =>
    cases v with
    | text => trivial
    | word n =>
      -- A text is read where a word would have to come from.
      unfold readScalar? at h
      split at h <;> simp_all
  | word =>
    simp only [readScalar?] at h
    obtain ⟨p, hn, hp⟩ := Option.map_eq_some_iff.1 h
    cases hp
    exact lt_of_readNumber? hn

theorem readKey?_quote (key : String) :
    readKey? (quote key.toList ++ ':' :: t) = some (key, t) := by
  rw [quote_append]
  simp only [readKey?, skipSpace_cons (show isSpace '"' = false from rfl),
    readQuoted?_flatMap_escape, skipSpace_cons (show isSpace ':' = false from rfl),
    String.ofList_toList]

namespace Record

/-! ## Members -/

/-- The schema that a list of members follows. -/
def schemaOf (ms : List (String × Scalar)) : List Field :=
  ms.map fun m => ⟨m.1, m.2.kind⟩

/-- Whether the numbers among the members are words. -/
def Fits (ms : List (String × Scalar)) : Prop :=
  ∀ m ∈ ms, m.2.Fits

instance (ms : List (String × Scalar)) : Decidable (Fits ms) :=
  inferInstanceAs (Decidable (∀ m ∈ ms, m.2.Fits))

variable {schema : List Field} {found ms : List (String × Scalar)} {m : String × Scalar}

theorem readMember?_print (hs : schema.find? (·.name == m.1) = some ⟨m.1, m.2.kind⟩)
    (hf : found.lookup m.1 = none) (hm : m.2.Fits) (hc : Ends c) :
    readMember? schema found (quote m.1.toList ++ ':' :: (m.2.print ++ c :: t)) =
      some (found ++ [m], c :: t) := by
  simp only [readMember?, readKey?_quote, Option.bind_eq_bind, Option.bind_some, hs, hf,
    Option.isSome_none, Bool.false_eq_true, if_false, readScalar?_print hm hc, Option.pure_def]

theorem lookup_append_of_ne {key : String} (hf : found.lookup key = none) (hk : key ≠ m.1) :
    (found ++ [m]).lookup key = none := by
  rw [List.lookup_append, hf, List.lookup_cons, beq_false_of_ne hk]
  rfl

/-- The members of an object are read back, after those found before. -/
theorem readMembers?_printMembers {fuel : Nat}
    (hs : ∀ m ∈ ms, schema.find? (·.name == m.1) = some ⟨m.1, m.2.kind⟩)
    (hf : ∀ m ∈ ms, found.lookup m.1 = none) (hd : (ms.map Prod.fst).Nodup) (hm : Fits ms)
    (hne : ms ≠ []) (hfuel : ms.length ≤ fuel) :
    readMembers? schema fuel found (printMembers ms ++ '\x7d' :: t) = some (found ++ ms, t) := by
  -- One unit of fuel is spent on each member; those read so far are in `found`.
  induction ms generalizing fuel found with
  | nil => exact absurd rfl hne
  | cons m ms ih =>
    obtain ⟨fuel, rfl⟩ : ∃ k, fuel = k + 1 := ⟨fuel - 1, by simp at hfuel; omega⟩
    have hms := hs m List.mem_cons_self
    have hmf := hf m List.mem_cons_self
    have hmm := hm m List.mem_cons_self
    obtain ⟨hnot, hd⟩ := List.nodup_cons.1 hd
    cases ms with
    | nil =>
      have := readMember?_print (t := t) hms hmf hmm (Or.inr rfl)
      simp only [printMembers, List.append_assoc, List.cons_append, readMembers?,
        this, Option.bind_eq_bind, Option.bind_some,
        skipSpace_cons (show isSpace '\x7d' = false from rfl), Option.pure_def]
    | cons m' ms =>
      have := readMember?_print (t := printMembers (m' :: ms) ++ '\x7d' :: t) hms hmf hmm
        (Or.inl rfl)
      simp only [printMembers, List.append_assoc, List.cons_append, readMembers?,
        this, Option.bind_eq_bind, Option.bind_some,
        skipSpace_cons (show isSpace ',' = false from rfl)]
      rw [ih (fun k hk => hs k (List.mem_cons_of_mem _ hk)) (fun k hk => ?_) hd
        (fun k hk => hm k (List.mem_cons_of_mem _ hk)) (List.cons_ne_nil _ _)
        (by simpa using hfuel), List.append_assoc, List.singleton_append]
      refine lookup_append_of_ne (hf k (List.mem_cons_of_mem _ hk)) fun he => hnot ?_
      exact he ▸ List.mem_map_of_mem hk

/-! ## Records -/

theorem find?_schemaOf (hd : (ms.map Prod.fst).Nodup) (h : m ∈ ms) :
    (schemaOf ms).find? (·.name == m.1) = some ⟨m.1, m.2.kind⟩ := by
  induction ms with
  | nil => cases h
  | cons n ms ih =>
    obtain ⟨hnot, hd⟩ := List.nodup_cons.1 hd
    rcases List.mem_cons.1 h with rfl | h
    · simp [schemaOf]
    · have hne : n.1 ≠ m.1 := fun he => hnot (he ▸ List.mem_map_of_mem h)
      simpa [schemaOf, hne] using ih hd h

theorem lookup_of_mem (hd : (ms.map Prod.fst).Nodup) (h : m ∈ ms) :
    ms.lookup m.1 = some m.2 := by
  induction ms with
  | nil => cases h
  | cons n ms ih =>
    obtain ⟨hnot, hd⟩ := List.nodup_cons.1 hd
    rcases List.mem_cons.1 h with rfl | h
    · rw [List.lookup_cons, beq_self_eq_true]
    · have hne : m.1 ≠ n.1 := fun he => hnot (he ▸ List.mem_map_of_mem h)
      rw [List.lookup_cons, beq_false_of_ne hne]
      exact ih hd h

/-- Every field of a list of members finds its own value there. -/
theorem collect?_schemaOf (hd : (ms.map Prod.fst).Nodup) :
    collect? (schemaOf ms) ms = some (ms.map Prod.snd) := by
  have h : ∀ ns : List (String × Scalar), (∀ m ∈ ns, ms.lookup m.1 = some m.2) →
      collect? (schemaOf ns) ms = some (ns.map Prod.snd) := by
    intro ns hns
    induction ns with
    | nil => rfl
    | cons n ns ih =>
      have hn := hns n List.mem_cons_self
      have ih := ih fun m hm => hns m (List.mem_cons_of_mem _ hm)
      simp only [collect?, schemaOf, List.map_cons] at ih ⊢
      simp [List.mapM_cons, hn, ih]
  exact h ms fun m hm => lookup_of_mem hd hm

theorem length_le_printMembers (ms : List (String × Scalar)) :
    ms.length ≤ (printMembers ms).length := by
  induction ms with
  | nil => simp
  | cons m ms ih => cases ms <;> simp_all [printMembers] <;> omega

theorem printMembers_cons (ms : List (String × Scalar)) :
    ∃ t, printMembers (m :: ms) = '"' :: t := by
  cases ms <;> exact ⟨_, rfl⟩

/-- A record is read back from its written form. -/
theorem read?_print (hd : (ms.map Prod.fst).Nodup) (hm : Fits ms) :
    read? (schemaOf ms) (print ms) = some (ms.map Prod.snd) := by
  cases ms with
  | nil => rfl
  | cons m ms =>
    obtain ⟨t, ht⟩ := printMembers_cons (m := m) ms
    have hlen := length_le_printMembers (m :: ms)
    have hmem : readMembers? (schemaOf (m :: ms)) (printMembers (m :: ms) ++ ['\x7d']).length []
        (printMembers (m :: ms) ++ ['\x7d']) = some ([] ++ m :: ms, []) :=
      readMembers?_printMembers (fun k hk => find?_schemaOf hd hk) (fun _ _ => rfl) hd hm
        (List.cons_ne_nil _ _) (by rw [List.length_append]; omega)
    rw [List.nil_append, ht] at hmem
    have hvalues : readValues? (schemaOf (m :: ms)) ('\x7b' :: ('"' :: t ++ ['\x7d'])) =
        some ((m :: ms).map Prod.snd, []) := by
      simp only [readValues?, skipSpace_cons (show isSpace '\x7b' = false from rfl),
        skipSpace_cons (show isSpace '"' = false from rfl), List.cons_append,
        Option.bind_eq_bind] at hmem ⊢
      rw [hmem]
      simp only [Option.bind_some, collect?_schemaOf hd, Option.pure_def]
      rfl
    simp only [read?, print, ht, String.toList_ofList, List.cons_append]
    simp only [List.cons_append] at hvalues
    rw [hvalues]
    rfl

/-! ## What was read fits -/

theorem fits_of_readMember? {p : List (String × Scalar) × List Char} (hf : Fits found)
    {s : List Char} (h : readMember? schema found s = some p) : Fits p.1 := by
  unfold readMember? at h
  obtain ⟨⟨key, rest⟩, -, h⟩ := Option.bind_eq_some_iff.1 h
  dsimp only at h
  split at h
  · obtain ⟨r, -, h⟩ := Option.bind_eq_some_iff.1 h
    cases h; exact hf
  · split at h
    · cases h
    · obtain ⟨⟨v, r⟩, hv, h⟩ := Option.bind_eq_some_iff.1 h
      cases h
      intro m hm
      rcases List.mem_append.1 hm with hm | hm
      · exact hf m hm
      · obtain rfl := List.mem_singleton.1 hm
        exact fits_of_readScalar? hv

theorem fits_of_readMembers? {fuel : Nat} {p : List (String × Scalar) × List Char}
    (hf : Fits found) {s : List Char} (h : readMembers? schema fuel found s = some p) :
    Fits p.1 := by
  induction fuel generalizing found s with
  | zero => cases h
  | succ fuel ih =>
    unfold readMembers? at h
    obtain ⟨⟨found, rest⟩, hread, h⟩ := Option.bind_eq_some_iff.1 h
    have hf := fits_of_readMember? hf hread
    dsimp only at h hf
    split at h
    · cases h; exact hf
    · exact ih hf h
    · cases h

theorem fits_of_readElements? {p : List Scalar × List Char} {s : List Char}
    (h : readElements? schema s = some p) : ∀ v ∈ p.1, v.Fits := by
  induction schema generalizing s p with
  | nil => cases h
  | cons field fields ih =>
    unfold readElements? at h
    obtain ⟨⟨v, rest⟩, hv, h⟩ := Option.bind_eq_some_iff.1 h
    have hv := fits_of_readScalar? hv
    dsimp only at h
    split at h
    · cases h; simpa using hv
    · obtain ⟨⟨vs, r⟩, hvs, h⟩ := Option.bind_eq_some_iff.1 h
      cases h
      exact List.forall_mem_cons.2 ⟨hv, ih hvs⟩
    · cases h

theorem mem_of_lookup {key : String} {v : Scalar} (h : found.lookup key = some v) :
    (key, v) ∈ found := by
  obtain ⟨before, after, rfl, -⟩ := List.lookup_eq_some_iff.1 h
  exact List.mem_append_right _ List.mem_cons_self

theorem fits_of_collect? {vs : List Scalar} (hf : Fits found)
    (h : collect? schema found = some vs) : ∀ v ∈ vs, v.Fits := by
  induction schema generalizing vs with
  | nil => cases h; simp
  | cons field fields ih =>
    simp only [collect?, List.mapM_cons] at h ih
    obtain ⟨v, hv, h⟩ := Option.bind_eq_some_iff.1 h
    obtain ⟨ws, hws, h⟩ := Option.bind_eq_some_iff.1 h
    cases h
    exact List.forall_mem_cons.2 ⟨hf _ (mem_of_lookup hv), ih hws⟩

theorem fits_of_readValues? {p : List Scalar × List Char} {s : List Char}
    (h : readValues? schema s = some p) : ∀ v ∈ p.1, v.Fits := by
  have hnil : Fits [] := fun _ hm => absurd hm List.not_mem_nil
  unfold readValues? at h
  split at h
  · exact fits_of_readElements? h
  · dsimp only at h
    split at h
    · obtain ⟨⟨found, rest⟩, hread, h⟩ := Option.bind_eq_some_iff.1 h
      obtain ⟨vs, hvs, h⟩ := Option.bind_eq_some_iff.1 h
      cases hread; cases h; exact fits_of_collect? hnil hvs
    · obtain ⟨⟨found, rest⟩, hread, h⟩ := Option.bind_eq_some_iff.1 h
      obtain ⟨vs, hvs, h⟩ := Option.bind_eq_some_iff.1 h
      cases h; exact fits_of_collect? (fits_of_readMembers? hnil hread) hvs
  · cases h

/-- The numbers of a record that was read are words. -/
theorem fits_of_read? {text : String} {vs : List Scalar} (h : read? schema text = some vs) :
    ∀ v ∈ vs, v.Fits := by
  obtain ⟨⟨vs', rest⟩, hread, h⟩ := Option.bind_eq_some_iff.1 h
  dsimp only at h
  split at h
  · cases h; exact fits_of_readValues? hread
  · cases h

end Record

end Tenured.Json
