import Tenured.Mapping
import Tenured.Proofs.Page

/-!
# Obtaining mappings

A mapping is as long as what was asked for, rounded up to whole pages. Rounding needs one page more
than the size to be a word, so the attempt ends with a fault for sizes in the last page of the
address space (`Mapping.obtain_faultless_iff`). For every other size there is a mapping if the
system places one (`Mapping.obtain_eq_result_iff`), and an error if it does not.
-/

namespace Tenured

open Attempt

/-- Every mapping that the system places begins at a page and ends at a word. -/
structure AddressSpace.PlacesPages (sys : AddressSpace) : Prop where
  page_dvd : ∀ size base, sys.place size = .ok base → Page.size ∣ base
  stop_lt : ∀ size base, sys.place size = .ok base → base + size < Word.limit

theorem AddressSpace.place_ofBase {base size b : Nat} (h : (ofBase base).place size = .ok b) :
    size < 140737488355328 ∧ b = base := by
  simp only [ofBase] at h
  split at h
  · cases h
  · split at h
    · cases h
    · exact ⟨Nat.lt_of_not_le ‹_›, (Except.ok.inj h).symm⟩

theorem AddressSpace.placesPages_ofBase {base : Nat} (hd : Page.size ∣ base)
    (hlt : base < Word.limit / 2) : (ofBase base).PlacesPages := by
  constructor
  · intro size b h
    rw [(place_ofBase h).2]
    exact hd
  · intro size b h
    obtain ⟨hsize, rfl⟩ := place_ofBase h
    simp only [Word.limit] at hlt ⊢
    omega

namespace Mapping

variable {sys : AddressSpace} {bytes size : Nat} {mapping : Mapping}

/-- A mapping of so many bytes is had if they can be rounded up to whole pages and the system
places those. -/
theorem obtain_eq_result_iff : (obtain sys bytes).outcome = .result mapping ↔
    0 < bytes ∧ Page.roundUp bytes = .ok mapping.size ∧
      sys.place mapping.size = .ok mapping.base ∧ mapping.notAtPage = sys.notAtPage := by
  unfold obtain
  rw [outcome_unless, outcome_bind]
  constructor
  · rintro ⟨hz, size, hsize, h⟩
    cases hp : sys.place size with
    | error reason =>
      rw [hp] at h
      exact absurd h outcome_throw
    | ok base =>
      rw [hp] at h
      obtain rfl := outcome_pure.1 h
      exact ⟨Nat.pos_of_ne_zero hz, outcome_lift.1 hsize, hp, rfl⟩
  · rintro ⟨hpos, hround, hb, hn⟩
    refine ⟨Nat.ne_of_gt hpos, mapping.size, outcome_lift.2 hround, ?_⟩
    rw [hb, ← hn]
    exact outcome_pure.2 rfl

/-- Nothing is refused that the system places. -/
theorem exists_obtain_iff : (∃ mapping, (obtain sys bytes).outcome = .result mapping) ↔
    0 < bytes ∧ ∃ pages base, Page.roundUp bytes = .ok pages ∧ sys.place pages = .ok base := by
  constructor
  · rintro ⟨mapping, h⟩
    obtain ⟨hpos, hround, hb, -⟩ := obtain_eq_result_iff.1 h
    exact ⟨hpos, _, _, hround, hb⟩
  · rintro ⟨hpos, pages, base, hround, hb⟩
    exact ⟨⟨base, pages, sys.notAtPage⟩, obtain_eq_result_iff.2 ⟨hpos, hround, hb, rfl⟩⟩

/-- A mapping lies where the system places it, and has the bytes that were asked for. -/
theorem obtain_result (h : (obtain sys bytes).outcome = .result mapping) :
    sys.place mapping.size = .ok mapping.base ∧ bytes ≤ mapping.size := by
  obtain ⟨-, hround, hb, -⟩ := obtain_eq_result_iff.1 h
  exact ⟨hb, (Page.roundUp_bounds hround).2.1⟩

/-- A mapping consists of whole pages and ends at a word, if the system places them so. -/
theorem obtain_pages (hs : sys.PlacesPages) (h : (obtain sys bytes).outcome = .result mapping) :
    Page.size ∣ mapping.base ∧ Page.size ∣ mapping.size ∧ bytes ≤ mapping.size ∧
      mapping.base + mapping.size < Word.limit := by
  obtain ⟨-, hround, hplace, -⟩ := obtain_eq_result_iff.1 h
  obtain ⟨hd, hle, -⟩ := Page.roundUp_bounds hround
  exact ⟨hs.page_dvd _ _ hplace, hd, hle, hs.stop_lt _ _ hplace⟩

/-- A mapping is obtained or refused exactly if its size can be rounded up to whole pages. -/
theorem obtain_faultless_iff : Faultless (obtain sys bytes) ↔ bytes + Page.size < Word.limit := by
  unfold obtain
  rw [faultless_unless]
  constructor
  · intro h
    rcases Nat.eq_zero_or_pos bytes with rfl | hpos
    · decide
    cases hround : Page.roundUp bytes with
    | ok pages => exact (Page.roundUp_eq_ok_iff.1 hround).1
    | error e =>
      have h := (faultless_bind.1 (h (Nat.ne_of_gt hpos))).1 e
      rw [hround] at h
      exact absurd rfl h
  · intro hlt hz
    refine (faultless_lift_bind (Page.roundUp_eq_ok_iff.2 ⟨hlt, rfl⟩)).2 ?_
    split
    · exact faultless_pure
    · exact faultless_throw

end Mapping

end Tenured
