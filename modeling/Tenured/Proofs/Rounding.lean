import Tenured.Rounding

/-!
# Rounding, by divisibility

Where the alignment is a power of two, rounding down is the greatest multiple that is not above a
word (`Rounding.dvd_roundDown`, `Rounding.roundDown_le`, `Rounding.le_roundDown`), and rounding up
the least one that is not below it, as long as there is one among the words (`Rounding.dvd_roundUp`,
`Rounding.le_roundUp`, `Rounding.roundUp_le`).
-/

namespace Tenured.Rounding

variable {v a m : Nat}

/-! ## Powers of two -/

theorem dvd_of_le {b : Nat} (ha : a.isPowerOfTwo) (hb : b.isPowerOfTwo) (h : a ≤ b) : a ∣ b := by
  obtain ⟨k, rfl⟩ := ha
  obtain ⟨n, rfl⟩ := hb
  exact Nat.pow_dvd_pow 2 ((Nat.pow_le_pow_iff_right (by decide)).1 h)

/-- A power of two that is a word divides the number of words. -/
theorem dvd_limit (h : a.isPowerOfTwo) (ha : a < Word.limit) : a ∣ Word.limit :=
  dvd_of_le h ⟨64, rfl⟩ (Nat.le_of_lt ha)

/-- Two multiples that differ are a whole alignment apart. -/
theorem add_le_of_dvd_of_lt {n : Nat} (hm : a ∣ m) (hn : a ∣ n) (h : m < n) : m + a ≤ n := by
  have := Nat.le_of_dvd (by omega) (Nat.dvd_sub hn hm)
  omega

/-- A power of two that is a word is at most half of the number of words. -/
theorem le_half_of_isPowerOfTwo (h : a.isPowerOfTwo) (ha : a < Word.limit) :
    a ≤ Word.limit / 2 := by
  have := add_le_of_dvd_of_lt (Nat.dvd_refl a) (dvd_limit h ha) ha
  omega

/-! ## Rounding down -/

theorem dvd_roundDown (h : a.isPowerOfTwo) : a ∣ roundDown v a := by
  rw [roundDown_of_isPowerOfTwo h]
  exact Nat.dvd_mul_left ..

theorem roundDown_le (v a : Nat) : roundDown v a ≤ v :=
  clearBelow_le v a

theorem lt_roundDown_add (h : a.isPowerOfTwo) : v < roundDown v a + a := by
  rw [roundDown_of_isPowerOfTwo h]
  exact Nat.lt_div_mul_add (Nat.pos_of_isPowerOfTwo h)

theorem le_roundDown (h : a.isPowerOfTwo) (hd : a ∣ m) (hm : m ≤ v) : m ≤ roundDown v a := by
  have := lt_roundDown_add (v := v) h
  by_cases hle : m ≤ roundDown v a
  · exact hle
  · have := add_le_of_dvd_of_lt (dvd_roundDown h) hd (Nat.lt_of_not_le hle)
    omega

theorem roundDown_of_dvd (h : a.isPowerOfTwo) (hd : a ∣ v) : roundDown v a = v :=
  Nat.le_antisymm (roundDown_le v a) (le_roundDown h hd (Nat.le_refl v))

theorem roundDown_lt_iff (h : a.isPowerOfTwo) (hd : a ∣ m) : roundDown v a < m ↔ v < m := by
  constructor
  · intro hlt
    exact Nat.lt_of_not_le fun hle => Nat.not_le.2 hlt (le_roundDown h hd hle)
  · exact Nat.lt_of_le_of_lt (roundDown_le v a)

theorem roundDown_le_iff (h : a.isPowerOfTwo) (hd : a ∣ m) : roundDown v a ≤ m ↔ v < m + a := by
  rw [← roundDown_lt_iff h (Nat.dvd_add hd (Nat.dvd_refl a))]
  constructor
  · have := Nat.pos_of_isPowerOfTwo h
    omega
  · intro hlt
    refine Nat.le_of_not_lt fun hgt => ?_
    have := add_le_of_dvd_of_lt hd (dvd_roundDown h) hgt
    omega

/-! ## Rounding up -/

theorem dvd_roundUp (h : a.isPowerOfTwo) : a ∣ roundUp v a :=
  dvd_roundDown h

theorem roundUp_le_add (v a : Nat) : roundUp v a ≤ v + (a - 1) :=
  Nat.le_trans (clearBelow_le ..) (Nat.mod_le ..)

theorem roundUp_le (h : a.isPowerOfTwo) (hd : a ∣ m) (hm : v ≤ m) : roundUp v a ≤ m := by
  have ha := Nat.pos_of_isPowerOfTwo h
  have hw := roundUp_le_add v a
  by_cases hle : roundUp v a ≤ m
  · exact hle
  · have := add_le_of_dvd_of_lt hd (dvd_roundUp h) (Nat.lt_of_not_le hle)
    omega

theorem le_roundUp_of_lt (h : a.isPowerOfTwo) (hv : v + (a - 1) < Word.limit) :
    v ≤ roundUp v a := by
  have := lt_roundDown_add (v := v + (a - 1)) h
  have := Nat.pos_of_isPowerOfTwo h
  rw [roundUp, Word.addWrap_of_lt hv, ← roundDown]
  omega

theorem le_roundUp (h : a.isPowerOfTwo) (hd : a ∣ m) (hm : v ≤ m) (hl : m < Word.limit) :
    v ≤ roundUp v a := by
  rcases Nat.eq_zero_or_pos m with rfl | hpos
  · omega
  · have ha := Nat.le_of_dvd hpos hd
    have := add_le_of_dvd_of_lt hd (dvd_limit h (by omega)) hl
    exact le_roundUp_of_lt h (by omega)

/-- A multiple of the alignment is left as it is. -/
theorem roundUp_of_dvd (h : a.isPowerOfTwo) (hd : a ∣ v) (hl : v < Word.limit) :
    roundUp v a = v :=
  Nat.le_antisymm (roundUp_le h hd (Nat.le_refl v)) (le_roundUp h hd (Nat.le_refl v) hl)

/-- Where there is no word to round up to, less than the alignment is left of the sum. -/
theorem roundUp_eq_zero (h : a.isPowerOfTwo) (ha : a < Word.limit) (hv : v < Word.limit)
    (hl : Word.limit ≤ v + (a - 1)) : roundUp v a = 0 := by
  have hwrap : Word.addWrap v (a - 1) < a := by
    rw [Word.addWrap, Nat.mod_eq_sub_mod hl, Nat.mod_eq_of_lt (by omega)]
    omega
  exact Nat.eq_zero_of_dvd_of_lt (dvd_roundUp h) ((roundDown_lt_iff h (Nat.dvd_refl a)).2 hwrap)

/-! ## With the check -/

theorem down_eq_ok (h : a.isPowerOfTwo) : down v a = .ok (roundDown v a) := by
  simp only [down, isPowerOfTwo_iff.2 h, check, if_true]; rfl

theorem up_eq_ok (h : a.isPowerOfTwo) : up v a = .ok (roundUp v a) := by
  simp only [up, isPowerOfTwo_iff.2 h, check, if_true]; rfl

/-- Being a multiple of an alignment can be asked of every alignment but zero. -/
theorem isMultiple_eq_ok (h : 0 < a) : isMultiple v a = .ok (v &&& (a - 1) == 0) := by
  rw [isMultiple, Word.sub_eq_ok_iff.2 ⟨h, rfl⟩]
  rfl

/-- Having no bit below the alignment is being a multiple of it. -/
theorem and_sub_one_eq_zero_iff (h : a.isPowerOfTwo) : v &&& (a - 1) = 0 ↔ a ∣ v := by
  rw [and_sub_one_of_isPowerOfTwo h, Nat.dvd_iff_mod_eq_zero]

end Tenured.Rounding
