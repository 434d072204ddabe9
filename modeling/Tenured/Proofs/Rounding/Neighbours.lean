import Mathlib.Order.Bounds.Basic
import Tenured.Proofs.Page

/-!
# Neighbouring multiples

A word lies between two neighbouring multiples of an alignment, or is one itself. The lower one is
always a word (`Rounding.isGreatest_roundDown`). The upper one is less than one alignment unit away
(`Rounding.lt_add_of_isLeast`), but it may be 2^64, which every alignment divides and which is no
word (`Rounding.eq_limit_of_isLeast`). Rounding up then gives zero in its place
(`Rounding.roundUp_eq`), while the padding leads to the upper one all the same
(`Rounding.padding_eq_ok`).

`Rounding.finds_neighbours` has all of this, with the test for a multiple and with rounding to whole
pages. The latter fails once a page more than the word is no word, so that the last page of the
address space is not rounded to itself (`Page.roundUp_overflows`).

On 64 bits the quotient times the alignment is what the complement of the low bits keeps of a word
(`Rounding.roundDown_eq_and`), or of the sum modulo 2^64 (`Rounding.roundUp_eq_and`).
-/

namespace Tenured.Rounding

variable {v a above : Nat}

/-! ## Masks -/

/-- Rounding down keeps the bits from the alignment on. -/
theorem roundDown_eq_and (h : a.isPowerOfTwo) (ha : a < Word.limit) (hv : v < Word.limit) :
    roundDown v a = v &&& (Word.max ^^^ (a - 1)) := by
  rw [roundDown_of_isPowerOfTwo h]
  obtain ⟨k, rfl⟩ := h
  have hk : k < 64 := (Nat.pow_lt_pow_iff_right (by decide)).1 ha
  refine Nat.eq_of_testBit_eq fun i => ?_
  rw [Nat.testBit_mul_two_pow, Nat.testBit_div_two_pow, Nat.testBit_and, Nat.testBit_xor,
    show Word.max = 2 ^ 64 - 1 from rfl, Nat.testBit_two_pow_sub_one, Nat.testBit_two_pow_sub_one]
  rcases Nat.lt_or_ge i k with hlow | hhigh
  · simp [hlow, Nat.not_le.2 hlow, Nat.lt_trans hlow hk]
  rw [Nat.sub_add_cancel hhigh]
  rcases Nat.lt_or_ge i 64 with hi | hi
  · simp [hi, hhigh, Nat.not_lt.2 hhigh]
  · -- a word has no such bit, whatever the mask is
    have hlt : v < 2 ^ i := Nat.lt_of_lt_of_le hv (Nat.pow_le_pow_right Nat.two_pos hi)
    simp [Nat.testBit_lt_two_pow hlt]

/-- Rounding up does the same to the sum modulo 2^64. -/
theorem roundUp_eq_and (h : a.isPowerOfTwo) (ha : a < Word.limit) :
    roundUp v a = Word.addWrap v (a - 1) &&& (Word.max ^^^ (a - 1)) :=
  roundDown_eq_and h ha (Word.addWrap_lt v (a - 1))

/-! ## The neighbours -/

/-- Rounding down finds the multiple below. -/
theorem isGreatest_roundDown (h : a.isPowerOfTwo) :
    IsGreatest {m | a ∣ m ∧ m ≤ v} (roundDown v a) := by
  refine ⟨⟨dvd_roundDown h, roundDown_le v a⟩, ?_⟩
  rintro m ⟨hd, hm⟩
  exact le_roundDown h hd hm

theorem exists_isLeast (h : a.isPowerOfTwo) (v : Nat) :
    ∃ above, IsLeast {m | a ∣ m ∧ v ≤ m} above := by
  have hpos := Nat.pos_of_isPowerOfTwo h
  have hlt := lt_roundDown_add (v := v + (a - 1)) h
  refine ⟨roundDown (v + (a - 1)) a, ⟨dvd_roundDown h, by omega⟩, ?_⟩
  rintro m ⟨hd, hm⟩
  exact (roundDown_le_iff h hd).2 (by omega)

/-- The multiple above is less than one alignment unit away. -/
theorem lt_add_of_isLeast (hpos : 0 < a) (hm : IsLeast {m | a ∣ m ∧ v ≤ m} above) :
    above < v + a := by
  obtain ⟨⟨hd, -⟩, hleast⟩ := hm
  refine Nat.lt_of_not_le fun hge => ?_
  have hle : above ≤ above - a := hleast ⟨Nat.dvd_sub hd (Nat.dvd_refl a), by omega⟩
  omega

/-- A multiple above that is no word is the number of words. -/
theorem eq_limit_of_isLeast (h : a.isPowerOfTwo) (ha : a < Word.limit) (hv : v < Word.limit)
    (hm : IsLeast {m | a ∣ m ∧ v ≤ m} above) (hl : Word.limit ≤ above) : above = Word.limit :=
  Nat.le_antisymm (hm.2 ⟨dvd_limit h ha, Nat.le_of_lt hv⟩) hl

/-- Rounding up finds the multiple above if it is a word, and gives zero if it is not. -/
theorem roundUp_eq (h : a.isPowerOfTwo) (ha : a < Word.limit) (hv : v < Word.limit)
    (hm : IsLeast {m | a ∣ m ∧ v ≤ m} above) :
    roundUp v a = if above < Word.limit then above else 0 := by
  split
  · rename_i hl
    obtain ⟨⟨hd, hle⟩, hleast⟩ := hm
    have hge : above ≤ roundUp v a := hleast ⟨dvd_roundUp h, le_roundUp h hd hle hl⟩
    exact Nat.le_antisymm (roundUp_le h hd hle) hge
  · rename_i hl
    obtain rfl := eq_limit_of_isLeast h ha hv hm (Nat.le_of_not_lt hl)
    have hlt := lt_add_of_isLeast (Nat.pos_of_isPowerOfTwo h) hm
    exact roundUp_eq_zero h ha hv (by omega)

/-- The padding is the distance to the multiple above, also where that is no word: the difference
from zero is then taken modulo 2^64. -/
theorem padding_eq_ok (h : a.isPowerOfTwo) (ha : a < Word.limit) (hv : v < Word.limit)
    (hm : IsLeast {m | a ∣ m ∧ v ≤ m} above) : padding v a = .ok (above - v) := by
  have hle : v ≤ above := hm.1.2
  have hlt := lt_add_of_isLeast (Nat.pos_of_isPowerOfTwo h) hm
  have hsub : Word.subWrap (roundUp v a) v = above - v := by
    rw [roundUp_eq h ha hv hm]
    rcases Nat.lt_or_ge above Word.limit with hl | hl
    · rw [if_pos hl, Word.subWrap, if_pos hle]
    · obtain rfl := eq_limit_of_isLeast h ha hv hm hl
      -- the word is not zero, which would be its own multiple above
      have hpos : ¬ v ≤ 0 := by omega
      rw [if_neg (Nat.lt_irrefl _), Word.subWrap, if_neg hpos, Nat.sub_zero]
  rw [padding, up_eq_ok h]
  exact congrArg Except.ok hsub

theorem isMultiple_eq_decide (h : a.isPowerOfTwo) : isMultiple v a = .ok (decide (a ∣ v)) := by
  rw [isMultiple_eq_ok (Nat.pos_of_isPowerOfTwo h), beq_eq_decide,
    decide_eq_decide.2 (and_sub_one_eq_zero_iff h)]

/-- Rounding a word to a power of two finds the neighbouring multiples: the one below, and the one
above unless that is no word, which gives zero. The padding is shorter than one alignment unit and
leads to the one above. A word passes the test for a multiple exactly if it is one. Rounding up to
whole pages is rounding up to the page size as long as a page more than the word is a word, and
fails otherwise. -/
theorem finds_neighbours (h : a.isPowerOfTwo) (ha : a < Word.limit) (hv : v < Word.limit) :
    (∃ below, IsGreatest {m | a ∣ m ∧ m ≤ v} below ∧ down v a = .ok below) ∧
    (∃ above p, IsLeast {m | a ∣ m ∧ v ≤ m} above ∧
      up v a = .ok (if above < Word.limit then above else 0) ∧
      padding v a = .ok p ∧ p < a ∧ v + p = above) ∧
    isMultiple v a = .ok (decide (a ∣ v)) ∧
    Page.roundUp v = if v + Page.size < Word.limit then up v Page.size else .error .overflow := by
  refine ⟨⟨_, isGreatest_roundDown h, down_eq_ok h⟩, ?_, isMultiple_eq_decide h, ?_⟩
  · obtain ⟨above, hm⟩ := exists_isLeast h v
    have hle : v ≤ above := hm.1.2
    have hlt := lt_add_of_isLeast (Nat.pos_of_isPowerOfTwo h) hm
    refine ⟨above, above - v, hm, ?_, padding_eq_ok h ha hv hm, by omega, by omega⟩
    rw [up_eq_ok h, roundUp_eq h ha hv hm]
  · rw [Page.roundUp_eq, up_eq_ok Page.isPowerOfTwo_size]

/-- A word whose multiple above is no word. -/
theorem finds_neighbours_last :
    (65536).isPowerOfTwo ∧ 65536 < Word.limit ∧ 18446744073709551605 < Word.limit ∧
    IsGreatest {m | 65536 ∣ m ∧ m ≤ 18446744073709551605} 18446744073709486080 ∧
    IsLeast {m | 65536 ∣ m ∧ 18446744073709551605 ≤ m} Word.limit ∧
    up 18446744073709551605 65536 = .ok 0 ∧ padding 18446744073709551605 65536 = .ok 11 ∧
    isMultiple 18446744073709551605 65536 = .ok false ∧
    Page.roundUp 18446744073709551605 = .error .overflow := by
  have h : (65536).isPowerOfTwo := ⟨16, rfl⟩
  have ha : 65536 < Word.limit := by decide
  have hv : 18446744073709551605 < Word.limit := by decide
  obtain ⟨⟨below, hbelow, hdown⟩, ⟨above, p, habove, hup, hpad, -, hsum⟩, hmultiple, hpage⟩ :=
    finds_neighbours h ha hv
  obtain rfl : 18446744073709486080 = below := Except.ok.inj hdown
  obtain rfl : 11 = p := Except.ok.inj hpad
  subst hsum
  exact ⟨h, ha, hv, hbelow, habove, hup, hpad, hmultiple, hpage⟩

end Tenured.Rounding

namespace Tenured.Page

/-- The last page of the address space begins at a multiple of the page size, and one byte less than
a page can be added to its address, but it is not rounded to itself. -/
theorem roundUp_overflows :
    18446744073709547520 + (size - 1) < Word.limit ∧
    Rounding.up 18446744073709547520 size = .ok 18446744073709547520 ∧
    roundUp 18446744073709547520 = .error .overflow :=
  ⟨by decide, rfl, rfl⟩

end Tenured.Page
