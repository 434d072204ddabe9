import Tenured.Proofs.Mapping
import Tenured.Reservation

/-!
# Commits and releases

A commit is refused unless it is of a multiple of the alignment, and a release is not. So what is
committed is a multiple of the alignment as long as the releases come to one, and the rest can be
committed in one step exactly then.

* `Reservation.reserve_result`: what a new reservation is like.
* `Reservation.commit?_eq_some_iff`: when a commit is granted.
* `Reservation.Balanced`: the invariant, with the number of bytes that were released so far. There
  is one lemma for each call that keeps it: `Balanced.commit?`, `Balanced.commitRest?`,
  `Balanced.release`.
* `Reservation.Run.commits_rest`: what follows for the committed part and for its growth.
* `Reservation.Run.committed_unaligned`: a release after which the rest cannot be committed.
-/

namespace Tenured

open Attempt

variable {sys : AddressSpace}

namespace Reservation

variable {size alignment bytes released : Nat} {r r' : Reservation}

/-! ## New reservations -/

/-- An alignment is refused unless it is a power of two. -/
theorem alignment_accepted_iff :
    ¬ (!Rounding.isPowerOfTwo alignment) = true ↔ alignment.isPowerOfTwo := by
  simp [Rounding.isPowerOfTwo_iff]

/-- A size is refused unless it is a positive multiple of the alignment. -/
theorem size_accepted_iff (h : alignment.isPowerOfTwo) :
    ¬ (size = 0 ∨ (!(size &&& (alignment - 1) == 0)) = true) ↔ 0 < size ∧ alignment ∣ size := by
  simp [Rounding.and_sub_one_eq_zero_iff h, Nat.pos_iff_ne_zero]

/-- There is a reservation if the size is a positive multiple of the alignment and the system places
a mapping that is longer by one alignment unit. It begins at the first multiple of the alignment in
the mapping. -/
theorem reserve_eq_result_iff : (reserve sys size alignment).outcome = .result r ↔
    alignment.isPowerOfTwo ∧ (0 < size ∧ alignment ∣ size) ∧ size + alignment < Word.limit ∧
      ∃ mapping, (Mapping.obtain sys (size + alignment)).outcome = .result mapping ∧
        Rounding.roundUp mapping.base alignment + size < Word.limit ∧
        r = ⟨mapping, Rounding.roundUp mapping.base alignment,
          Rounding.roundUp mapping.base alignment + size,
          Rounding.roundUp mapping.base alignment, alignment⟩ := by
  unfold reserve
  rw [outcome_unless, alignment_accepted_iff]
  refine and_congr_right fun hp => ?_
  rw [outcome_bind]
  simp only [outcome_lift, Rounding.isMultiple_eq_ok (Nat.pos_of_isPowerOfTwo hp),
    Except.ok.injEq, exists_eq_left', outcome_unless, size_accepted_iff hp, Nat.not_le]
  refine and_congr_right fun _ => and_congr_right fun _ => ?_
  rw [outcome_bind]
  refine exists_congr fun mapping => and_congr_right fun _ => ?_
  rw [outcome_bind]
  simp only [outcome_lift, Rounding.up_eq_ok hp, Except.ok.injEq, exists_eq_left', outcome_bind,
    Word.add_eq_ok_iff, outcome_pure]
  constructor
  · rintro ⟨stop, ⟨hlt, rfl⟩, rfl⟩
    exact ⟨hlt, rfl⟩
  · rintro ⟨hlt, rfl⟩
    exact ⟨_, ⟨hlt, rfl⟩, rfl⟩

/-- The first multiple of the alignment in a mapping is less than one alignment unit above its
base. -/
theorem roundUp_base_le (hp : alignment.isPowerOfTwo) (base : Nat) :
    Rounding.roundUp base alignment + 1 ≤ base + alignment := by
  have hpos := Nat.pos_of_isPowerOfTwo hp
  have hle := Rounding.roundUp_le_add base alignment
  omega

/-- A new reservation lies in its mapping, unless the mapping ends beyond the last word. -/
theorem reserve_result (h : (reserve sys size alignment).outcome = .result r) :
    alignment.isPowerOfTwo ∧ alignment ∣ size ∧ r.alignment = alignment ∧
      alignment ∣ r.start ∧ r.stop = r.start + size ∧ r.stop < Word.limit ∧
      r.high = r.start ∧ sys.place r.mapping.size = .ok r.mapping.base ∧
      r.stop ≤ r.mapping.base + r.mapping.size ∧
      (r.mapping.base + r.mapping.size ≤ Word.limit → r.mapping.base ≤ r.start) := by
  obtain ⟨hp, ⟨-, hd⟩, -, mapping, hmap, hlt, rfl⟩ := reserve_eq_result_iff.1 h
  obtain ⟨hplace, hle⟩ := Mapping.obtain_result hmap
  have hup := roundUp_base_le hp mapping.base
  have hpos := Nat.pos_of_isPowerOfTwo hp
  refine ⟨hp, hd, rfl, Rounding.dvd_roundUp hp, rfl, hlt, rfl, hplace, ?_, fun hl => ?_⟩
  · show Rounding.roundUp mapping.base alignment + size ≤ mapping.base + mapping.size
    omega
  · show mapping.base ≤ Rounding.roundUp mapping.base alignment
    replace hl : mapping.base + mapping.size ≤ Word.limit := hl
    exact Rounding.le_roundUp_of_lt hp (by omega)

/-! ## Calls -/

/-- A commit is granted if it is of a positive multiple of the alignment for which there is room. -/
theorem commit?_eq_some_iff (ha : r.alignment.isPowerOfTwo) : r.commit? bytes = some r' ↔
    (0 < bytes ∧ r.alignment ∣ bytes ∧ bytes ≤ r.left) ∧
      r' = { r with high := r.high + bytes } := by
  simp only [commit?, ne_eq, Rounding.and_sub_one_eq_zero_iff ha]
  grind

theorem release_eq_ok {host host' : Host} (h : r.release bytes host = .ok (r', host')) :
    bytes ≤ r.committed ∧ r' = { r with high := r.high - bytes } := by
  obtain ⟨_, hle, h⟩ := bind_eq_ok_iff.1 h
  refine ⟨check_eq_ok_iff.1 hle, ?_⟩
  split at h
  · rename_i hz
    cases h
    rw [hz]
    rfl
  · cases h
    rfl

/-! ## The invariant -/

/-- A reservation of so many bytes, with a committed part that is a multiple of the alignment if
what was released is added to it. -/
structure Balanced (size alignment released : Nat) (r : Reservation) : Prop where
  isPowerOfTwo : alignment.isPowerOfTwo
  dvd_size : alignment ∣ size
  alignment_eq : r.alignment = alignment
  stop_eq : r.stop = r.start + size
  start_le : r.start ≤ r.high
  le_stop : r.high ≤ r.stop
  dvd_add : alignment ∣ r.committed + released

namespace Balanced

theorem reserve (h : (reserve sys size alignment).outcome = .result r) :
    Balanced size alignment 0 r := by
  obtain ⟨hp, hd, ha, -, hstop, -, hhigh, -⟩ := reserve_result h
  refine ⟨hp, hd, ha, hstop, ?_, ?_, ?_⟩
  · omega
  · omega
  · simp [committed, hhigh]

variable (h : Balanced size alignment released r)
include h

theorem left_add_committed : r.left + r.committed = size := by
  have := h.stop_eq
  have := h.start_le
  have := h.le_stop
  simp only [left, committed]
  omega

theorem dvd_committed_iff : alignment ∣ r.committed ↔ alignment ∣ released :=
  ⟨fun hc => (Nat.dvd_add_right hc).1 h.dvd_add, fun hr => (Nat.dvd_add_left hr).1 h.dvd_add⟩

theorem dvd_left_iff : alignment ∣ r.left ↔ alignment ∣ released := by
  have hd : alignment ∣ r.left + r.committed := h.left_add_committed ▸ h.dvd_size
  rw [← h.dvd_committed_iff]
  exact ⟨fun hl => (Nat.dvd_add_right hl).1 hd, fun hc => (Nat.dvd_add_left hc).1 hd⟩

theorem commit? (hc : r.commit? bytes = some r') : Balanced size alignment released r' := by
  obtain ⟨⟨-, hd, hle⟩, rfl⟩ := (commit?_eq_some_iff (h.alignment_eq ▸ h.isPowerOfTwo)).1 hc
  have hs := h.start_le
  have hl := h.le_stop
  simp only [left] at hle
  refine ⟨h.isPowerOfTwo, h.dvd_size, h.alignment_eq, h.stop_eq, ?_, ?_, ?_⟩
  · dsimp only; omega
  · dsimp only; omega
  · have hsum : r.high + bytes - r.start + released = r.committed + released + bytes := by
      simp only [committed]
      omega
    show alignment ∣ r.high + bytes - r.start + released
    rw [hsum]
    exact Nat.dvd_add h.dvd_add (h.alignment_eq ▸ hd)

theorem commitRest? (hc : r.commitRest? = some r') : Balanced size alignment released r' := by
  unfold Reservation.commitRest? at hc
  split at hc
  · cases hc
  · exact h.commit? hc

theorem release {host host' : Host} (hr : r.release bytes host = .ok (r', host')) :
    Balanced size alignment (released + bytes) r' := by
  obtain ⟨hle, rfl⟩ := release_eq_ok hr
  have hs := h.start_le
  have hl := h.le_stop
  simp only [committed] at hle
  refine ⟨h.isPowerOfTwo, h.dvd_size, h.alignment_eq, h.stop_eq, ?_, ?_, ?_⟩
  · dsimp only; omega
  · dsimp only; omega
  · have hsum : r.high - bytes - r.start + (released + bytes) = r.committed + released := by
      simp only [committed]
      omega
    show alignment ∣ r.high - bytes - r.start + (released + bytes)
    rw [hsum]
    exact h.dvd_add

/-- The rest can be committed if there is one and it is a multiple of the alignment. -/
theorem commitRest?_eq_some_iff : r.commitRest? = some r' ↔
    (0 < r.left ∧ alignment ∣ released) ∧ r' = { r with high := r.stop } := by
  have hstop : r.high + r.left = r.stop := by
    have := h.le_stop
    simp only [left]
    omega
  unfold Reservation.commitRest?
  split
  · rename_i hz
    simp [hz]
  · rename_i hz
    rw [commit?_eq_some_iff (h.alignment_eq ▸ h.isPowerOfTwo), h.alignment_eq, h.dvd_left_iff,
      hstop]
    simp

end Balanced

/-! ## Runs -/

/-- What becomes of a new reservation by commits, granted ones, and releases, and how many bytes
were released. A commit that is refused leaves the reservation as it was. -/
inductive Run (sys : AddressSpace) (size alignment : Nat) : Nat → Reservation → Prop
  | new {r : Reservation} (h : (reserve sys size alignment).outcome = .result r) :
    Run sys size alignment 0 r
  | commit {n bytes : Nat} {r r' : Reservation} (h : Run sys size alignment n r)
    (hc : r.commit? bytes = some r') : Run sys size alignment n r'
  | commitRest {n : Nat} {r r' : Reservation} (h : Run sys size alignment n r)
    (hc : r.commitRest? = some r') : Run sys size alignment n r'
  | release {n bytes : Nat} {r r' : Reservation} {host host' : Host}
    (h : Run sys size alignment n r) (hr : r.release bytes host = .ok (r', host')) :
    Run sys size alignment (n + bytes) r'

theorem Run.balanced (h : Run sys size alignment released r) :
    Balanced size alignment released r := by
  induction h with
  | new h => exact .reserve h
  | commit _ hc ih => exact ih.commit? hc
  | commitRest _ hc ih => exact ih.commitRest? hc
  | release _ hr ih => exact ih.release hr

/-- The committed part always lies at the low end of the reservation. It is a multiple of the
alignment exactly if what was released comes to one. Then the rest can be committed if there is one,
which leaves nothing, and otherwise it cannot. -/
theorem Run.commits_rest (h : Run sys size alignment released r) :
    r.start ≤ r.high ∧ r.high ≤ r.stop ∧ r.stop = r.start + size ∧ r.alignment = alignment ∧
    (alignment ∣ r.committed ↔ alignment ∣ released) ∧
    ((∃ r', r.commitRest? = some r' ∧ r'.left = 0) ↔ 0 < r.left ∧ alignment ∣ released) ∧
    ∀ r', r.commitRest? = some r' → r' = { r with high := r.stop } := by
  have hb := h.balanced
  refine ⟨hb.start_le, hb.le_stop, hb.stop_eq, hb.alignment_eq, hb.dvd_committed_iff, ?_, ?_⟩
  · constructor
    · rintro ⟨r', hr, -⟩
      exact (hb.commitRest?_eq_some_iff.1 hr).1
    · intro hl
      exact ⟨_, hb.commitRest?_eq_some_iff.2 ⟨hl, rfl⟩, Nat.sub_self _⟩
  · intro r' hr
    exact (hb.commitRest?_eq_some_iff.1 hr).2

/-- Of two releases neither is of a multiple of the alignment, and together they are. -/
theorem Run.commits_rest_small : ∃ r r' : Reservation,
    Run (.ofBase 65536) 16384 4096 4096 r ∧ r.committed = 4096 ∧
      r.commitRest? = some r' ∧ r'.left = 0 := by
  have hrun : ∃ a b c r : Reservation,
      (reserve (.ofBase 65536) 16384 4096).outcome = .result a ∧ a.commit? 8192 = some b ∧
      b.release 8 {} = .ok (c, b.giveBack 8 {}) ∧
      c.release 4088 {} = .ok (r, c.giveBack 4088 {}) ∧ r.committed = 4096 ∧ 0 < r.left :=
    ⟨_, ⟨⟨65536, 20480, "Invalid argument (os error 22)"⟩, 65536, 81920, 73728, 4096⟩, _, _, rfl,
      by decide, rfl, rfl, rfl, by decide⟩
  obtain ⟨a, b, c, r, ha, hb, hc, hr, hcommitted, hleft⟩ := hrun
  have h : Run (.ofBase 65536) 16384 4096 4096 r :=
    .release (n := 8) (.release (n := 0) (.commit (.new ha) hb) hc) hr
  obtain ⟨-, -, -, -, -, hrest, -⟩ := Run.commits_rest h
  obtain ⟨r', hr', hl⟩ := hrest.2 ⟨hleft, by decide⟩
  exact ⟨r, r', h, hcommitted, hr', hl⟩

/-- After a release of eight bytes what is committed is no multiple of the alignment, and the rest
cannot be committed. -/
theorem Run.committed_unaligned : ∃ r : Reservation,
    Run (.ofBase 65536) 16384 4096 8 r ∧ ¬ r.alignment ∣ r.committed ∧ 0 < r.left ∧
      r.commitRest? = none := by
  have hrun : ∃ a b r : Reservation,
      (reserve (.ofBase 65536) 16384 4096).outcome = .result a ∧ a.commit? 8192 = some b ∧
      b.release 8 {} = .ok (r, b.giveBack 8 {}) ∧ ¬ r.alignment ∣ r.committed ∧ 0 < r.left ∧
      r.commitRest? = none :=
    ⟨_, ⟨⟨65536, 20480, "Invalid argument (os error 22)"⟩, 65536, 81920, 73728, 4096⟩, _, rfl,
      by decide, rfl, by decide, by decide, by decide⟩
  obtain ⟨a, b, r, ha, hb, hr, h⟩ := hrun
  exact ⟨r, .release (n := 0) (.commit (.new ha) hb) hr, h⟩

end Reservation

end Tenured
