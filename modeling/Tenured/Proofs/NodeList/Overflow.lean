import Tenured.Proofs.NodeList

/-!
# Node lists with too many nodes

The nodes of a list are counted from its first part on, and every sum on the way has to be a word.
Parts with too many nodes end the count with a fault, whatever follows them
(`NodeList.countFrom_append_overflow`, `NodeList.Begins.count_eq_overflow`). A single part has too
many nodes only if it is the range of all words (`NodeList.Spells.count_eq_overflow_iff`). Every
other text is counted or found malformed: `NodeList.count_eq_overflow_iff_begins`.
-/

namespace Tenured.NodeList

variable {cs text : List Char} {total : Nat} {p : Part} {parts : List Part}
  {heads rest fields : List (List Char)}

/-! ## One part -/

theorem Names.lt {n : Nat} (h : Names cs n) : n < Word.limit := by
  obtain ⟨-, -, h⟩ := h
  exact h.lt

theorem Spells.ne_nil (h : Spells cs p) : cs ≠ [] := by
  rintro rfl
  exact absurd (readPart?_eq_some_iff.2 h) nofun

theorem Part.size_single_lt (n : Nat) : (single n).size < Word.limit :=
  (by decide : 1 < Word.limit)

theorem Spells.count_eq_overflow (h : Spells cs p) (hge : Word.limit ≤ p.size) :
    p.count = .error .overflow := by
  cases h with
  | @single _ n _ => exact absurd hge (Nat.not_le.2 (Part.size_single_lt n))
  | @range l r lo hi _ _ hle =>
    have hsub : Word.sub hi lo = .ok (hi - lo) := Word.sub_eq_ok_iff.2 ⟨hle, rfl⟩
    simp only [Part.count, hsub]
    exact Word.add_eq_overflow hge

/-- Only the range of all words has too many nodes by itself. -/
theorem Spells.limit_le_size_iff (h : Spells cs p) :
    Word.limit ≤ p.size ↔ p = .range 0 Word.max := by
  have hmax := Word.max_add_one
  cases h with
  | @single _ n _ => exact iff_of_false (Nat.not_le.2 (Part.size_single_lt n)) nofun
  | @range l r lo hi _ hr hle =>
    have hhi := hr.lt
    rw [Part.range.injEq, Part.size]
    omega

theorem Spells.count_eq_overflow_iff (h : Spells cs p) :
    p.count = .error .overflow ↔ p = .range 0 Word.max := by
  rw [← h.limit_le_size_iff]
  refine ⟨fun hc => ?_, h.count_eq_overflow⟩
  by_contra hlt
  rw [h.count_eq (Nat.lt_of_not_le hlt)] at hc
  cases hc

/-! ## Parts one after another -/

/-- The step of the count that is one too far. -/
theorem countFrom_cons_overflow (hp : Spells cs p) (hge : Word.limit ≤ total + p.size) :
    countFrom total (cs :: fields) = .error .overflow := by
  have hread := readPart?_eq_some_iff.2 hp
  rcases Nat.lt_or_ge p.size Word.limit with hlt | hsize
  · have hadd : Word.add total p.size = .error .overflow := Word.add_eq_overflow hge
    simp only [countFrom, hread, hp.count_eq hlt, hadd, bind, Except.bind]
  · simp only [countFrom, hread, hp.count_eq_overflow hsize, bind, Except.bind]

/-- Parts with too many nodes are not counted to their end. -/
theorem countFrom_append_overflow (h : List.Forall₂ Spells heads parts) (ht : total < Word.limit)
    (hge : Word.limit ≤ total + size parts) :
    countFrom total (heads ++ rest) = .error .overflow := by
  induction h generalizing total with
  | nil => exact absurd hge (Nat.not_le.2 ht)
  | @cons cs p heads parts hp _ ih =>
    rw [List.cons_append]
    rcases Nat.lt_or_ge (total + p.size) Word.limit with hlt | hstep
    · rw [size_cons, ← Nat.add_assoc] at hge
      rw [countFrom_cons hp hlt, ih hlt hge]
    · exact countFrom_cons_overflow hp hstep

/-- A text that begins with too many nodes is not counted, whatever follows them. -/
theorem Begins.count_eq_overflow (hb : Begins text parts) (hge : Word.limit ≤ size parts) :
    count text = .error .overflow := by
  obtain ⟨heads, rest, rfl, h⟩ := hb
  cases h with
  | nil => exact absurd hge (by decide)
  | @cons cs p heads parts hp hparts =>
    have h : List.Forall₂ Spells (cs :: heads) (p :: parts) := .cons hp hparts
    have happend : cs :: heads ++ rest ≠ [] := List.cons_ne_nil _ _
    obtain ⟨rest', hfields⟩ := Text.exists_fields_eq_append (comma_notMem_of_spells h) happend
    have hne : [','].intercalate (cs :: heads ++ rest) ≠ [] := by
      intro hnil
      -- the empty text has one part, which is empty
      rw [hnil, List.cons_append] at hfields
      exact hp.ne_nil (List.cons.inj hfields).1.symm
    rw [count, if_neg hne, hfields]
    exact countFrom_append_overflow h (by decide) (by omega)

/-! ## All texts -/

theorem exists_count_eq_ok (hlt : ∀ parts, Begins text parts → size parts < Word.limit) :
    ∃ n, count text = .ok n := by
  by_cases h : ∃ parts, Lists text parts
  · obtain ⟨parts, h⟩ := h
    exact ⟨_, count_of_lists h (hlt parts h.begins)⟩
  · exact ⟨_, count_of_not_lists hlt h⟩

/-- A text is counted or found malformed exactly if it does not begin with parts that have too many
nodes, and otherwise the count ends with a fault. A part by itself has too many nodes only if it is
the range of all words. -/
theorem count_eq_overflow_iff_begins (text : List Char) :
    ((∃ n, count text = .ok n) ↔ ∀ parts, Begins text parts → size parts < Word.limit) ∧
    (count text = .error .overflow ↔ ∃ parts, Begins text parts ∧ Word.limit ≤ size parts) ∧
    ∀ cs p, Spells cs p → (p.count = .error .overflow ↔ p = .range 0 Word.max) := by
  refine ⟨⟨fun ⟨n, hn⟩ parts hb => ?_, exists_count_eq_ok⟩, ⟨fun hc => ?_, ?_⟩,
    fun cs p h => h.count_eq_overflow_iff⟩
  · by_contra hge
    rw [hb.count_eq_overflow (Nat.le_of_not_lt hge)] at hn
    cases hn
  · by_contra! hlt
    obtain ⟨n, hn⟩ := exists_count_eq_ok hlt
    rw [hn] at hc
    cases hc
  · rintro ⟨parts, hb, hge⟩
    exact hb.count_eq_overflow hge

/-- The greatest number of nodes, and one more of them before a part that is malformed. -/
theorem count_eq_overflow_iff_begins_full :
    (∃ n, count "1-18446744073709551615".toList = .ok n) ∧
    count "1-18446744073709551615,5,x".toList = .error .overflow ∧
    (Part.range 0 18446744073709551615).count = .error .overflow := by
  have hfull : Spells "1-18446744073709551615".toList (.range 1 18446744073709551615) :=
    readPart?_eq_some_iff.1 (by decide)
  have hfive : Spells "5".toList (.single 5) := readPart?_eq_some_iff.1 (by decide)
  have hall : Spells "0-18446744073709551615".toList (.range 0 18446744073709551615) :=
    readPart?_eq_some_iff.1 (by decide)
  have hlists : Lists "1-18446744073709551615".toList [.range 1 18446744073709551615] :=
    ⟨["1-18446744073709551615".toList], by decide, by decide, .cons hfull .nil⟩
  have hbegins : Begins "1-18446744073709551615,5,x".toList
      [.range 1 18446744073709551615, .single 5] :=
    ⟨["1-18446744073709551615".toList, "5".toList], ["x".toList], by decide,
      .cons hfull (.cons hfive .nil)⟩
  obtain ⟨hok, -, hpart⟩ := count_eq_overflow_iff_begins "1-18446744073709551615".toList
  obtain ⟨-, hover, -⟩ := count_eq_overflow_iff_begins "1-18446744073709551615,5,x".toList
  have hlt : ∀ parts, Begins "1-18446744073709551615".toList parts → size parts < Word.limit :=
    fun _ hb => Nat.lt_of_le_of_lt (hb.size_le hlists) (by decide)
  exact ⟨hok.2 hlt, hover.2 ⟨_, hbegins, by decide⟩, (hpart _ _ hall).2 rfl⟩

/-- Two texts that are neither counted nor found malformed: the first has too many nodes in one
part, the second in all parts. -/
theorem count_overflows :
    count "0-18446744073709551615".toList = .error .overflow ∧
    count "0-18446744073709551614,0".toList = .error .overflow := by
  decide

end Tenured.NodeList
