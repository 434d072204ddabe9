import Tenured.Proofs.Attempt
import Tenured.Proofs.Rounding
import Tenured.TouchCursor

/-!
# Moves of the touch cursor

What an allocation makes of the cursor has six cases (`TouchCursor.StepsTo`), and what holds of each
move is read off them:

* `TouchCursor.Follows.of_follow`: the cursor moves forward and never past the end of the space, and
  what is touched lies between the cursor and the end.
* `TouchCursor.le_next_of_follow`: after an allocation of less than a stride the cursor has passed
  the block.
* `TouchCursor.next_le_of_follow`: it leads by no more than its limit and one stride.

A move has a fault only if the allocation does not end at a word (`TouchCursor.exists_follow`).
-/

namespace Tenured.TouchCursor

variable {c : TouchCursor} {alloc size stop : Nat}

/-- The cases in which an allocation leaves the cursor or moves it. -/
inductive StepsTo (c : TouchCursor) (alloc size stop : Nat) : Step → Prop
  | large (h : c.stride ≤ size) : StepsTo c alloc size stop .stay
  | full (h : stop ≤ c.next) : StepsTo c alloc size stop .stay
  | ahead (hle : alloc + size ≤ c.next) (hl : c.limit < c.next - (alloc + size)) :
    StepsTo c alloc size stop .stay
  | near (hstop : c.next < stop) (hle : alloc + size ≤ c.next)
    (hl : c.next - (alloc + size) ≤ c.limit) : StepsTo c alloc size stop (.touch c.next)
  | last (hstop : c.next < stop) (hlt : c.next < alloc + size)
    (hl : Rounding.roundDown (stop - 1) c.stride < alloc + size) : StepsTo c alloc size stop .finish
  | behind (hstop : c.next < stop) (hlt : c.next < alloc + size)
    (hl : alloc + size ≤ Rounding.roundDown (stop - 1) c.stride) :
    StepsTo c alloc size stop (.touch (Rounding.roundUp (alloc + size) c.stride))

theorem StepsTo.of_step {s : Step} (h : c.step alloc size stop = .ok s) :
    StepsTo c alloc size stop s := by
  unfold step at h
  split at h
  · rename_i hn
    cases h
    exact hn.elim .large .full
  rename_i hn
  rw [not_or, Nat.not_le, Nat.not_le] at hn
  obtain ⟨allocated, ha, h⟩ := bind_eq_ok_iff.1 h
  obtain ⟨-, rfl⟩ := Word.add_eq_ok_iff.1 ha
  split at h
  · rename_i hle
    split at h <;> rename_i hl <;> cases h
    · exact .ahead hle hl
    · exact .near hn.2 hle (Nat.le_of_not_lt hl)
  · rename_i hlt
    split at h <;> rename_i hl <;> cases h
    · exact .last hn.2 (Nat.lt_of_not_le hlt) hl
    · exact .behind hn.2 (Nat.lt_of_not_le hlt) (Nat.le_of_not_lt hl)

/-- What is rounded up is at or above the allocation and below the end. -/
theorem roundUp_bounds (hp : c.stride.isPowerOfTwo) (hs : stop < Word.limit) (hstop : c.next < stop)
    (hl : alloc + size ≤ Rounding.roundDown (stop - 1) c.stride) :
    alloc + size ≤ Rounding.roundUp (alloc + size) c.stride ∧
      Rounding.roundUp (alloc + size) c.stride < stop := by
  have hd := Rounding.dvd_roundDown (v := stop - 1) hp
  have := Rounding.roundDown_le (stop - 1) c.stride
  have := Rounding.roundUp_le hp hd hl
  exact ⟨Rounding.le_roundUp hp hd hl (by omega), by omega⟩

/-- What an allocation touches lies above the cursor and below the end. -/
theorem touch_bounds {addr : Nat} (hp : c.stride.isPowerOfTwo) (hs : stop < Word.limit)
    (h : c.step alloc size stop = .ok (.touch addr)) : c.next ≤ addr ∧ addr < stop := by
  cases StepsTo.of_step h with
  | near hstop _ _ => exact ⟨Nat.le_refl _, hstop⟩
  | behind hstop hlt hl =>
    have := roundUp_bounds hp hs hstop hl
    omega

/-- What the cursor becomes, and what is touched, after an allocation. -/
structure Follows (c : TouchCursor) (stop : Nat) (c' : TouchCursor) (touched : Option Nat) :
    Prop where
  stride_eq : c'.stride = c.stride
  limit_eq : c'.limit = c.limit
  next_le : c.next ≤ c'.next
  le_stop : c'.next ≤ stop
  touched_bounds : ∀ addr ∈ touched, c.next ≤ addr ∧ addr < stop

theorem Follows.of_follow {c' : TouchCursor} {touched : Option Nat} (hp : c.stride.isPowerOfTwo)
    (hs : stop < Word.limit) (hc : c.next ≤ stop)
    (h : c.follow alloc size stop = .ok (c', touched)) : Follows c stop c' touched := by
  obtain ⟨s, hstep, h⟩ := bind_eq_ok_iff.1 h
  cases s with
  | stay => cases h; exact ⟨rfl, rfl, Nat.le_refl _, hc, nofun⟩
  | finish => cases h; exact ⟨rfl, rfl, hc, Nat.le_refl _, nofun⟩
  | touch addr =>
    cases h
    have hb := touch_bounds hp hs hstep
    refine ⟨rfl, rfl, ?_, ?_, fun a ha => by cases ha; exact hb⟩
    all_goals simp only [claim]; split <;> omega

/-! ## How far a move goes -/

section Follow

variable {c' : TouchCursor} {touched : Option Nat}
  (h : c.follow alloc size stop = .ok (c', touched))

/-- At the end of the space the cursor stays. -/
theorem follow_of_stop_le (hn : stop ≤ c.next) : c.follow alloc size stop = .ok (c, none) := by
  simp only [follow, step, hn, or_true, if_true]
  rfl

include h

/-- After an allocation of less than a stride everything up to its end is touched. -/
theorem le_next_of_follow (hp : c.stride.isPowerOfTwo) (hs : stop < Word.limit)
    (hsize : size < c.stride) (hle : alloc + size ≤ stop) : alloc + size ≤ c'.next := by
  obtain ⟨s, hstep, h⟩ := bind_eq_ok_iff.1 h
  cases StepsTo.of_step hstep with
  | large hlarge => omega
  | full hn => cases h; omega
  | ahead ha _ => cases h; exact ha
  | near hstop ha _ => cases h; simp only [claim]; split <;> omega
  | last _ _ _ => cases h; exact hle
  | behind hstop _ hl =>
    have := roundUp_bounds hp hs hstop hl
    cases h
    simp only [claim]
    split <;> omega

/-- A cursor that leads an allocation by no more than its limit and a stride goes on doing so. -/
theorem next_le_of_follow (hp : c.stride.isPowerOfTwo) (hl : c.stride ≤ c.limit)
    (hc : c.next ≤ alloc + size + c.limit + c.stride) :
    c'.next ≤ alloc + size + c.limit + c.stride := by
  obtain ⟨s, hstep, h⟩ := bind_eq_ok_iff.1 h
  cases StepsTo.of_step hstep with
  | large _ | full _ | ahead _ _ => cases h; exact hc
  | near hstop _ hn => cases h; simp only [claim]; split <;> omega
  | last hstop hlt hd =>
    -- the last stride of the space begins before the block ends
    have := Rounding.lt_roundDown_add (v := stop - 1) hp
    cases h
    show stop ≤ _
    omega
  | behind hstop _ hd =>
    have hup := Rounding.roundUp_le_add (alloc + size) c.stride
    have := Nat.pos_of_isPowerOfTwo hp
    cases h
    simp only [claim]
    split <;> omega

/-- A cursor at a multiple of what divides the stride and the end stays at one, and only such
addresses are touched. -/
theorem dvd_of_follow {n : Nat} (hp : c.stride.isPowerOfTwo) (hd : n ∣ c.stride) (hn : n ∣ c.next)
    (hs : n ∣ stop) : n ∣ c'.next ∧ ∀ addr ∈ touched, n ∣ addr := by
  have hclaim : ∀ addr, n ∣ addr → n ∣ (c.claim addr stop).next := by
    intro addr ha
    simp only [claim]
    split
    · exact hs
    · exact Nat.dvd_add ha hd
  obtain ⟨s, hstep, h⟩ := bind_eq_ok_iff.1 h
  cases StepsTo.of_step hstep with
  | large _ | full _ | ahead _ _ => cases h; exact ⟨hn, nofun⟩
  | near _ _ _ => cases h; exact ⟨hclaim _ hn, fun _ ha => by cases ha; exact hn⟩
  | last _ _ _ => cases h; exact ⟨hs, nofun⟩
  | behind _ _ _ =>
    have hup := Nat.dvd_trans hd (Rounding.dvd_roundUp (v := alloc + size) hp)
    cases h
    exact ⟨hclaim _ hup, fun _ ha => by cases ha; exact hup⟩

end Follow

/-! ## New cursors -/

theorem ofStart_eq_ok {start stride workers : Nat} (h : ofStart start stride workers = .ok c) :
    stride.isPowerOfTwo ∧ stride < Word.limit ∧ c.next = start ∧ c.stride = stride := by
  obtain ⟨_, hp, h⟩ := bind_eq_ok_iff.1 h
  obtain ⟨_, hl, h⟩ := bind_eq_ok_iff.1 h
  cases h
  refine ⟨Rounding.isPowerOfTwo_iff.1 (check_eq_ok_iff.1 hp), ?_, rfl, rfl⟩
  have := (Word.mul_eq_ok_iff.1 hl).1
  exact Nat.lt_of_le_of_lt (Nat.le_mul_of_pos_right _ (by omega)) this

/-- An allocation that ends at a word moves the cursor without a fault. -/
theorem exists_follow (h : alloc + size < Word.limit) : ∃ p, c.follow alloc size stop = .ok p := by
  have hs : ∃ s, c.step alloc size stop = .ok s := by
    unfold step
    split
    · exact ⟨_, rfl⟩
    · rw [(Word.add_eq_ok_iff (c := alloc + size)).2 ⟨h, rfl⟩]
      by_cases h₁ : alloc + size ≤ c.next
      · exact ⟨_, by simp only [Except.bind, bind, h₁, if_true]; rfl⟩
      · simp only [Except.bind, bind, h₁, if_false]
        split <;> exact ⟨_, rfl⟩
  obtain ⟨s, hs⟩ := hs
  simp only [follow, hs]
  cases s <;> exact ⟨_, rfl⟩

end Tenured.TouchCursor
