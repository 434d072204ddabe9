import Tenured.Page
import Tenured.Proofs.Attempt
import Tenured.Proofs.Rounding

/-!
# Whole pages

Rounding up to whole pages adds a page before it takes one byte away again, so it has a result
exactly if a page more than the size is a word (`Page.roundUp_eq_ok_iff`). The result holds the size
with less than a page to spare (`Page.roundUp_bounds`), and is the one of `Rounding.roundUp`
(`Page.roundUp_eq`).
-/

namespace Tenured.Page

variable {bytes pages : Nat}

theorem isPowerOfTwo_size : size.isPowerOfTwo := ⟨12, rfl⟩

theorem roundUp_eq_ok_iff : roundUp bytes = .ok pages ↔
    bytes + size < Word.limit ∧ pages = Rounding.roundDown (bytes + size - 1) size := by
  unfold roundUp
  rw [bind_eq_ok_iff]
  constructor
  · rintro ⟨padded, hp, h⟩
    obtain ⟨hlt, rfl⟩ := Word.add_eq_ok_iff.1 hp
    cases h
    exact ⟨hlt, rfl⟩
  · rintro ⟨hlt, rfl⟩
    exact ⟨_, Word.add_eq_ok_iff.2 ⟨hlt, rfl⟩, rfl⟩

/-- Rounding up gives the fewest whole pages that hold so many bytes. -/
theorem roundUp_bounds (h : roundUp bytes = .ok pages) :
    size ∣ pages ∧ bytes ≤ pages ∧ pages < bytes + size := by
  obtain ⟨-, rfl⟩ := roundUp_eq_ok_iff.1 h
  have hlt := Rounding.lt_roundDown_add (v := bytes + size - 1) isPowerOfTwo_size
  have hle := Rounding.roundDown_le (bytes + size - 1) size
  have hpos : 0 < size := by decide
  exact ⟨Rounding.dvd_roundDown isPowerOfTwo_size, by omega, by omega⟩

/-- Rounding up to whole pages is rounding up to the page size, except that it fails for the sizes
in the last page of the address space. -/
theorem roundUp_eq (bytes : Nat) : roundUp bytes =
    if bytes + size < Word.limit then .ok (Rounding.roundUp bytes size)
    else .error .overflow := by
  split
  · rename_i hlt
    have hsub : bytes + (size - 1) = bytes + size - 1 := (Nat.add_sub_assoc (by decide) bytes).symm
    have hfits : bytes + (size - 1) < Word.limit := by omega
    refine roundUp_eq_ok_iff.2 ⟨hlt, ?_⟩
    rw [Rounding.roundUp, Word.addWrap_of_lt hfits, hsub, ← Rounding.roundDown]
  · rename_i hge
    rw [roundUp, Word.add_eq_overflow (Nat.le_of_not_lt hge)]
    rfl

end Tenured.Page
