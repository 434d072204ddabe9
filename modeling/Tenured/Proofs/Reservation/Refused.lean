import Tenured.Proofs.Reservation

/-!
# Reservations that are refused

A reservation that cannot be had is an error, with one exception: where the size and the alignment
come to a word in the last page of the address space, they cannot be rounded up to whole pages, and
the attempt ends with a fault (`Reservation.reserve_faultless_iff`). A larger sum is refused before
it is rounded, and a smaller one is the system's decision. `Reservation.reserves_or_refuses` has all
of this, with what there is if the system agrees, and `Reservation.reserve_overflows` shows the
exception.
-/

namespace Tenured.Reservation

open Attempt

variable {sys : AddressSpace} {size alignment bytes : Nat}

/-- The attempt ends with a fault exactly if the reservation is acceptable and the size of its
mapping is a word that cannot be rounded up to whole pages. -/
theorem reserve_faultless_iff
    (hs : ∀ mapping, (Mapping.obtain sys (size + alignment)).outcome = .result mapping →
      mapping.base + (size + alignment) ≤ Word.limit) :
    Faultless (reserve sys size alignment) ↔
      ¬ (alignment.isPowerOfTwo ∧ (0 < size ∧ alignment ∣ size) ∧ size + alignment < Word.limit ∧
        Word.limit ≤ size + alignment + Page.size) := by
  have hlimit : ¬ Word.limit ≤ size + alignment + Page.size ↔
      size + alignment + Page.size < Word.limit := Nat.not_le
  unfold reserve
  rw [faultless_unless, alignment_accepted_iff, not_and, not_and, not_and, hlimit]
  refine forall_congr' fun hp => ?_
  rw [faultless_lift_bind (Rounding.isMultiple_eq_ok (Nat.pos_of_isPowerOfTwo hp)),
    faultless_unless, size_accepted_iff hp, faultless_unless, Nat.not_le]
  refine forall_congr' fun _ => forall_congr' fun _ => ?_
  rw [faultless_bind, Mapping.obtain_faultless_iff]
  refine and_iff_left_of_imp fun _ mapping hm => ?_
  -- the end of the reservation lies in the mapping, so it is a word
  have hup := roundUp_base_le hp mapping.base
  have hend := hs mapping hm
  refine Faultless.lift_bind (Rounding.up_eq_ok hp) ?_
  exact Faultless.lift_bind (Word.add_eq_ok_iff.2 ⟨by omega, rfl⟩) faultless_pure

/-- A reservation begins at a page, whether the alignment is shorter than a page or not. -/
theorem page_dvd_roundUp {base : Nat} (hp : alignment.isPowerOfTwo) (hd : Page.size ∣ base)
    (hl : base < Word.limit) : Page.size ∣ Rounding.roundUp base alignment := by
  rcases Nat.le_total alignment Page.size with hle | hle
  · have hdvd : alignment ∣ Page.size := Rounding.dvd_of_le hp Page.isPowerOfTwo_size hle
    rw [Rounding.roundUp_of_dvd hp (Nat.dvd_trans hdvd hd) hl]
    exact hd
  · have hdvd : Page.size ∣ alignment := Rounding.dvd_of_le Page.isPowerOfTwo_size hp hle
    exact Nat.dvd_trans hdvd (Rounding.dvd_roundUp hp)

/-- A reservation is had if the size is a positive multiple of the alignment and there is a mapping
for it. -/
theorem exists_reserve_iff (hs : sys.PlacesPages) :
    (∃ r, (reserve sys size alignment).outcome = .result r) ↔
      alignment.isPowerOfTwo ∧ (0 < size ∧ alignment ∣ size) ∧
      ∃ mapping, (Mapping.obtain sys (size + alignment)).outcome = .result mapping := by
  constructor
  · rintro ⟨r, hr⟩
    obtain ⟨hp, hsize, -, mapping, hm, -, -⟩ := reserve_eq_result_iff.1 hr
    exact ⟨hp, hsize, mapping, hm⟩
  · rintro ⟨hp, hsize, mapping, hm⟩
    obtain ⟨-, -, hle, hlt⟩ := Mapping.obtain_pages hs hm
    have hup := roundUp_base_le hp mapping.base
    exact ⟨_, reserve_eq_result_iff.2 ⟨hp, hsize, by omega, mapping, hm, by omega, rfl⟩⟩

/-- A new reservation lies in its mapping and begins at a page. -/
theorem reserve_within (hs : sys.PlacesPages) {r : Reservation}
    (hr : (reserve sys size alignment).outcome = .result r) :
    alignment ∣ r.start ∧ Page.size ∣ r.start ∧ r.stop = r.start + size ∧ r.high = r.start ∧
      r.mapping.containsBytes r.start size = true := by
  obtain ⟨hp, -, -, mapping, hm, hlt, rfl⟩ := reserve_eq_result_iff.1 hr
  obtain ⟨hbase, -, -, hend⟩ := Mapping.obtain_pages hs hm
  obtain ⟨-, -, -, hd, hstop, -, hhigh, -, hin, hstart⟩ := reserve_result hr
  have hlow := hstart (Nat.le_of_lt hend)
  refine ⟨hd, page_dvd_roundUp hp hbase (by omega), hstop, hhigh, ?_⟩
  simp only [Mapping.containsBytes, Bool.and_eq_true, decide_eq_true_eq]
  exact ⟨⟨hlt, hlow⟩, hin⟩

/-- Mappings and reservations are had or refused with an error, for every size and alignment, unless
what is asked for is a word that cannot be rounded up to whole pages. Nothing else is refused that
the system grants. A reservation begins at a multiple of the alignment and of the page size, has the
size that was asked for, and lies in its mapping. -/
theorem reserves_or_refuses (hs : sys.PlacesPages) (bytes size alignment : Nat) :
    (Faultless (Mapping.obtain sys bytes) ↔ bytes + Page.size < Word.limit) ∧
    ((∃ mapping, (Mapping.obtain sys bytes).outcome = .result mapping) ↔
      0 < bytes ∧ ∃ pages base, Page.roundUp bytes = .ok pages ∧ sys.place pages = .ok base) ∧
    (∀ mapping, (Mapping.obtain sys bytes).outcome = .result mapping →
      Page.size ∣ mapping.base ∧ Page.size ∣ mapping.size ∧ bytes ≤ mapping.size ∧
      mapping.base + mapping.size < Word.limit) ∧
    (Faultless (reserve sys size alignment) ↔
      ¬ (alignment.isPowerOfTwo ∧ (0 < size ∧ alignment ∣ size) ∧ size + alignment < Word.limit ∧
        Word.limit ≤ size + alignment + Page.size)) ∧
    ((∃ r, (reserve sys size alignment).outcome = .result r) ↔
      alignment.isPowerOfTwo ∧ (0 < size ∧ alignment ∣ size) ∧
      ∃ mapping, (Mapping.obtain sys (size + alignment)).outcome = .result mapping) ∧
    ∀ r, (reserve sys size alignment).outcome = .result r →
      alignment ∣ r.start ∧ Page.size ∣ r.start ∧ r.stop = r.start + size ∧ r.high = r.start ∧
      r.mapping.containsBytes r.start size = true := by
  refine ⟨Mapping.obtain_faultless_iff, Mapping.exists_obtain_iff,
    fun _ hm => Mapping.obtain_pages hs hm, reserve_faultless_iff fun mapping hm => ?_,
    exists_reserve_iff hs, fun _ hr => reserve_within hs hr⟩
  obtain ⟨-, -, hle, hlt⟩ := Mapping.obtain_pages hs hm
  omega

/-- A reservation that does not begin where its mapping does, and one that is refused though its
size is close to the last word. -/
theorem reserves_or_refuses_small :
    (AddressSpace.ofBase 69632).PlacesPages ∧
    (∃ r, (reserve (.ofBase 69632) 131072 65536).outcome = .result r ∧ r.start = 131072 ∧
      r.mapping.containsBytes r.start 131072 = true) ∧
    Faultless (reserve (.ofBase 69632) 18446744073709420544 65536) := by
  have hs : (AddressSpace.ofBase 69632).PlacesPages :=
    AddressSpace.placesPages_ofBase (by decide) (by decide)
  have hr : ∃ r, (reserve (.ofBase 69632) 131072 65536).outcome = .result r ∧ r.start = 131072 :=
    ⟨_, rfl, rfl⟩
  obtain ⟨r, hr, hstart⟩ := hr
  obtain ⟨-, -, -, -, -, hin⟩ := reserves_or_refuses hs 0 131072 65536
  obtain ⟨-, -, -, hfault, -, -⟩ := reserves_or_refuses hs 0 18446744073709420544 65536
  exact ⟨hs, ⟨r, hr, hstart, (hin r hr).2.2.2.2⟩, hfault.2 (by decide)⟩

/-- The last page of the address space cannot be rounded up to, though it is one itself. -/
theorem reserve_overflows :
    (AddressSpace.ofBase 69632).PlacesPages ∧
    (Mapping.obtain (.ofBase 69632) 18446744073709547520).outcome = .fault .overflow ∧
    (reserve (.ofBase 69632) 18446744073709543424 4096).outcome = .fault .overflow :=
  ⟨AddressSpace.placesPages_ofBase (by decide) (by decide), rfl, rfl⟩

end Tenured.Reservation
