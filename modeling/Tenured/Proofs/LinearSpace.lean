import Tenured.LinearSpace
import Tenured.Proofs.Attempt

/-!
# Calls of a linear space

What a call says about the space and the call if it ends without a fault. A block is refused exactly
if it does not fit in what is free, however many words it has (`LinearSpace.handOut_eq_ok_iff`). The
other calls move the top, the bounds or both.
-/

namespace Tenured.LinearSpace

open Object (wordSize)

variable {s s' : LinearSpace} {region : Region} {words addr : Nat} {mangled : Bool}
  {plan : Option TouchPlan} {m m' : Memory}

/-! ## Handing out a block -/

theorem handOut_of_lt (hs : s.stop < Word.limit) (h : s.stop < s.top + words * wordSize) :
    s.handOut words = .ok (none, s) := by
  have ht : s.topAfter? words = none := by
    rw [Option.eq_none_iff_forall_ne_some]
    intro newTop hn
    have := (topAfter?_eq_some_iff hs).1 hn
    simp only [wordSize] at h
    omega
  rw [handOut, ht]
  rfl

theorem topAfter?_of_le (hs : s.stop < Word.limit) (h : s.top + words * wordSize ≤ s.stop) :
    s.topAfter? words = some (s.top + words * wordSize) :=
  (topAfter?_eq_some_iff hs).2 ⟨by rw [Nat.mul_comm], h⟩

theorem handOut_of_le (hs : s.stop < Word.limit) (hd : 8 ∣ s.top)
    (h : s.top + words * wordSize ≤ s.stop) :
    s.handOut words = .ok (some s.top, { s with top := s.top + words * wordSize }) := by
  have hm : s.top % Object.alignment = 0 := Nat.mod_eq_zero_of_dvd hd
  simp only [handOut, topAfter?_of_le hs h, check, hm, if_true]
  rfl

/-- Blocks begin at multiples of the word size. -/
theorem handOut_of_not_dvd (hs : s.stop < Word.limit) (hd : ¬ 8 ∣ s.top)
    (h : s.top + words * wordSize ≤ s.stop) : s.handOut words = .error .blockUnaligned := by
  have hm : ¬ s.top % Object.alignment = 0 := fun hz => hd (Nat.dvd_of_mod_eq_zero hz)
  simp only [handOut, topAfter?_of_le hs h, check, hm, if_false]
  rfl

/-- A block is refused if its size is more than what is free, and that changes nothing. Otherwise it
begins at the top, which moves to its end. -/
theorem handOut_eq_ok_iff (hs : s.stop < Word.limit) (hle : s.top ≤ s.stop) {addr? : Option Nat} :
    s.handOut words = .ok (addr?, s') ↔
      (s.stop - s.top < words * wordSize ∧ addr? = none ∧ s' = s) ∨
      (words * wordSize ≤ s.stop - s.top ∧ 8 ∣ s.top ∧ addr? = some s.top ∧
        s' = { s with top := s.top + words * wordSize }) := by
  rcases Nat.lt_or_ge (s.stop - s.top) (words * wordSize) with hlt | hge
  · rw [handOut_of_lt hs (by omega)]
    simp [hlt, Nat.not_le.2 hlt, eq_comm]
  · by_cases hd : 8 ∣ s.top
    · rw [handOut_of_le hs hd (by omega)]
      simp [hge, Nat.not_lt.2 hge, hd, eq_comm]
    · rw [handOut_of_not_dvd hs hd (by omega)]
      simp [hd, Nat.not_lt.2 hge]

/-! ## Calls that end without a fault -/

theorem setUp_clear (h : s.setUp region true mangled plan m = .ok (s', m')) :
    s' = ⟨region.start, region.start, region.stop, region.start⟩ := by
  obtain ⟨m₁, -, h⟩ := bind_eq_ok_iff.1 h
  dsimp only at h
  split at h
  all_goals
    obtain ⟨m₂, -, h⟩ := bind_eq_ok_iff.1 h
    cases h
    rfl

theorem setUp_keep (h : s.setUp region false mangled plan m = .ok (s', m')) :
    region.start ≤ s.top ∧ s.top ≤ region.stop ∧
      s' = { s with bottom := region.start, stop := region.stop } := by
  obtain ⟨m₁, -, h⟩ := bind_eq_ok_iff.1 h
  obtain ⟨s₁, hs, h⟩ := bind_eq_ok_iff.1 h
  obtain ⟨_, hc, hs⟩ := bind_eq_ok_iff.1 hs
  cases hs
  cases h
  exact ⟨(check_eq_ok_iff.1 hc).1, (check_eq_ok_iff.1 hc).2, rfl⟩

theorem moveTop_eq_ok (h : s.moveTop addr = .ok s') :
    s.bottom ≤ addr ∧ addr ≤ s.stop ∧ s' = { s with top := addr } := by
  unfold moveTop at h
  split at h
  · rename_i hb
    cases h
    exact ⟨hb.1, hb.2, rfl⟩
  · obtain ⟨_, -, h⟩ := bind_eq_ok_iff.1 h
    cases h

theorem clear_eq_ok (h : s.clear mangled m = .ok (s', m')) : s' = { s with top := s.bottom } := by
  obtain ⟨s₁, hs, h⟩ := bind_eq_ok_iff.1 h
  obtain ⟨-, -, rfl⟩ := moveTop_eq_ok hs
  dsimp only at h
  split at h
  all_goals
    obtain ⟨m₂, -, h⟩ := bind_eq_ok_iff.1 h
    cases h
    rfl

end Tenured.LinearSpace
