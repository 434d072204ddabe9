import Tenured.Proofs.Object

/-!
# What parses

A space parses if objects of allowed sizes lie one after another from its bottom to exactly its top
(`LinearSpace.Parses`). Both walks over a space go from header to header for as long as they can, so
each ends in one of a few ways, whatever memory holds:

* `LinearSpace.verify_ends`: the check, which succeeds only at the top. The sizes that it accepts
  lead only to addresses at which a header can lie.
* `LinearSpace.objects_ends`: the search for objects, which does not mind where the last one ends,
  and which can be led to an address at which no header can lie.

`LinearSpace.verify_eq_ok_iff_parses` puts them together.
-/

namespace Tenured

namespace Object

variable {m : Memory} {addr top stop : Nat} {sizes : List Nat}

/-- A size that an object can have. -/
def Allowed (size : Nat) : Prop :=
  16 ≤ size ∧ 8 ∣ size

instance (size : Nat) : Decidable (Allowed size) :=
  inferInstanceAs (Decidable (_ ∧ _))

theorem not_bad_iff {size : Nat} : ¬ (size < minSize ∨ size % alignment ≠ 0) ↔ Allowed size := by
  have hmin : minSize = 16 := rfl
  have hal : alignment = 8 := rfl
  rw [Allowed, hmin, hal]
  omega

/-! ## Objects of given sizes -/

theorem tiles_ofSizes (h : ∀ n ∈ sizes, Allowed n) :
    Tiles addr (addr + sizes.sum) (ofSizes addr sizes) := by
  induction sizes generalizing addr with
  | nil => exact .nil
  | cons n sizes ih =>
    obtain ⟨hmin, hd⟩ := h n (.head _)
    rw [List.sum_cons, ← Nat.add_assoc]
    exact .cons hmin hd (ih fun n hn => h n (.tail _ hn))

theorem Chain.headers (h : Chain m addr sizes) : Headers m (ofSizes addr sizes) := by
  induction sizes generalizing addr with
  | nil => nofun
  | cons n sizes ih =>
    intro o ho
    rcases List.mem_cons.1 ho with rfl | ho
    · exact h.1
    · exact ih h.2 o ho

end Object

namespace LinearSpace

open Object (Allowed Chain Passes Tiles ofSizes)

variable {s : LinearSpace} {m : Memory} {sizes : List Nat}

/-! ## How walks end -/

theorem objectsFrom_of_passes {top addr stop : Nat}
    (h : Passes (0 < ·) m top addr sizes stop) (found : Array Object) :
    objectsFrom m top addr found =
      objectsFrom m top stop (found ++ (ofSizes addr sizes).toArray) := by
  induction h generalizing found with
  | here => exact congrArg _ Array.append_empty.symm
  | next hlt hr ha hw _ ih =>
    rw [objectsFrom, if_neg (Nat.not_le.2 hlt), hr]
    dsimp only
    rw [if_neg (Nat.ne_of_gt ha), if_neg (Nat.not_le.2 hw), ih]
    simp [ofSizes]

/-- Whatever memory holds, the search for objects passes at most as many as there are addresses
below the top. It ends when one of them reaches the top, at an address at which no header can lie or
where there is no object, or at an object that does not end within the address space. -/
theorem objects_ends (s : LinearSpace) (m : Memory) : ∃ sizes stop,
    Passes (0 < ·) m s.top s.bottom sizes stop ∧ sizes.length ≤ s.top - s.bottom ∧
    (s.top ≤ stop ∧ s.objects m = .ok (ofSizes s.bottom sizes).toArray ∨
      stop < s.top ∧ ¬ 8 ∣ stop ∧ s.objects m = .error (.misaligned stop) ∨
      stop < s.top ∧ 8 ∣ stop ∧ m.load stop = 0 ∧ s.objects m = .error (.zeroSizedObject stop) ∨
      stop < s.top ∧ 8 ∣ stop ∧ Word.limit ≤ stop + m.load stop ∧
        s.objects m = .error .overflow) := by
  obtain ⟨sizes, stop, h, hstuck⟩ := Object.exists_passes (fun _ hn => hn) m s.top s.bottom
  have hlen := h.length_lt Nat.one_pos fun _ hn => hn
  refine ⟨sizes, stop, h, by omega, ?_⟩
  rw [objects, objectsFrom_of_passes h, Array.empty_append, objectsFrom]
  cases hstuck with
  | top hle => exact .inl ⟨hle, if_pos hle⟩
  | misaligned hlt hd =>
    refine .inr (.inl ⟨hlt, hd, ?_⟩)
    rw [if_neg (Nat.not_le.2 hlt), Memory.readWord_of_not_dvd hd]
    rfl
  | refused hlt hd ha =>
    have hz : m.load stop = 0 := Nat.eq_zero_of_not_pos ha
    refine .inr (.inr (.inl ⟨hlt, hd, hz, ?_⟩))
    rw [if_neg (Nat.not_le.2 hlt), Memory.readWord_of_dvd hd]
    exact if_pos hz
  | overflow hlt hd ha hw =>
    refine .inr (.inr (.inr ⟨hlt, hd, hw, ?_⟩))
    rw [if_neg (Nat.not_le.2 hlt), Memory.readWord_of_dvd hd]
    dsimp only
    rw [if_neg (Nat.ne_of_gt ha), if_pos hw]
    rfl

theorem verifyFrom_of_passes {top addr stop : Nat}
    (h : Passes Allowed m top addr sizes stop) : verifyFrom m top addr = verifyFrom m top stop := by
  induction h with
  | here => rfl
  | next hlt hr ha hw _ ih =>
    rw [verifyFrom, if_neg (Nat.not_le.2 hlt), hr]
    dsimp only
    rw [if_neg (Object.not_bad_iff.2 ha), if_neg (Nat.not_le.2 hw), ih]

/-- Whatever memory holds, the check of a space passes only as many objects as there is room for
below the top. It ends when one of them reaches the top, at a size that no object has, or at an
object that does not end within the address space. -/
theorem verify_ends (hd : 8 ∣ s.bottom) (m : Memory) : ∃ sizes stop,
    Passes Allowed m s.top s.bottom sizes stop ∧ 16 * sizes.length < s.top - s.bottom + 16 ∧
    8 ∣ stop ∧
    (stop = s.top ∧ s.verify m = .ok () ∨
      s.top < stop ∧ s.verify m = .error (.lastObjectPastTop stop s.top) ∨
      stop < s.top ∧ ¬ Allowed (m.load stop) ∧
        s.verify m = .error (.badObjectSize (m.load stop) stop) ∨
      stop < s.top ∧ Word.limit ≤ stop + m.load stop ∧ s.verify m = .error .overflow) := by
  have hpos : ∀ n, Allowed n → 0 < n := fun _ hn => Nat.lt_of_lt_of_le (by decide) hn.1
  obtain ⟨sizes, stop, h, hstuck⟩ := Object.exists_passes hpos m s.top s.bottom
  have hdvd := h.dvd_stop hd fun n hn => (h.accepted n hn).2
  refine ⟨sizes, stop, h, h.length_lt (by decide) fun _ hn => hn.1, hdvd, ?_⟩
  rw [verify, verifyFrom_of_passes h, verifyFrom]
  cases hstuck with
  | top hle =>
    rw [if_pos hle]
    rcases Nat.eq_or_lt_of_le hle with heq | hlt
    · exact .inl ⟨heq.symm, check_eq_ok_iff.2 heq.symm⟩
    · exact .inr (.inl ⟨hlt, if_neg (Nat.ne_of_gt hlt)⟩)
  | misaligned _ hn => exact absurd hdvd hn
  | refused hlt _ ha =>
    refine .inr (.inr (.inl ⟨hlt, ha, ?_⟩))
    rw [if_neg (Nat.not_le.2 hlt), Memory.readWord_of_dvd hdvd]
    dsimp only
    rw [if_pos (Decidable.not_not.1 fun hbad => ha (Object.not_bad_iff.1 hbad))]
    rfl
  | overflow hlt _ ha hw =>
    refine .inr (.inr (.inr ⟨hlt, hw, ?_⟩))
    rw [if_neg (Nat.not_le.2 hlt), Memory.readWord_of_dvd hdvd]
    dsimp only
    rw [if_neg (Object.not_bad_iff.2 ha), if_pos hw]
    rfl

/-! ## Spaces that parse -/

/-- Objects of the given sizes lie one after another from the bottom to exactly the top. -/
structure Parses (s : LinearSpace) (m : Memory) (sizes : List Nat) : Prop where
  allowed : ∀ n ∈ sizes, Allowed n
  sum_eq : sizes.sum = s.top - s.bottom
  chain : Chain m s.bottom sizes

namespace Parses

theorem tiles (h : Parses s m sizes) (hle : s.bottom ≤ s.top) :
    Tiles s.bottom s.top (ofSizes s.bottom sizes) := by
  have htiles : Tiles s.bottom (s.bottom + sizes.sum) (ofSizes s.bottom sizes) :=
    Object.tiles_ofSizes h.allowed
  rwa [h.sum_eq, Nat.add_sub_cancel' hle] at htiles

theorem verify_eq (h : Parses s m sizes) (hd : 8 ∣ s.bottom) (hle : s.bottom ≤ s.top)
    (hlt : s.top < Word.limit) : s.verify m = .ok () := by
  rw [verify, (h.tiles hle).verifyFrom hd h.chain.headers hlt]
  exact check_eq_ok_iff.2 rfl

/-- The objects are found in the order of their addresses. -/
theorem objects_eq (h : Parses s m sizes) (hd : 8 ∣ s.bottom) (hle : s.bottom ≤ s.top)
    (hlt : s.top < Word.limit) : s.objects m = .ok (ofSizes s.bottom sizes).toArray := by
  have htiles := h.tiles hle
  have hbelow : ∀ o ∈ ofSizes s.bottom sizes, decide (o.addr < s.top) = true := by
    intro o ho
    have := (htiles.bounds ho).2
    have := Nat.lt_of_lt_of_le Object.minSize_pos (htiles.allowed ho).1
    exact decide_eq_true (by omega)
  rw [objects, htiles.objectsFrom hd h.chain.headers hlt (Nat.le_refl _), Array.empty_append,
    List.filter_eq_self.2 hbelow]

end Parses

/-- Only a space that parses passes the check. -/
theorem exists_parses_of_verify (hd : 8 ∣ s.bottom) (h : s.verify m = .ok ()) :
    ∃ sizes, Parses s m sizes := by
  obtain ⟨sizes, stop, hp, -, -, hends⟩ := verify_ends hd m
  rw [h] at hends
  obtain ⟨rfl, -⟩ | ⟨-, he⟩ | ⟨-, -, he⟩ | ⟨-, -, he⟩ := hends
  · have := hp.stop_eq
    exact ⟨sizes, hp.accepted, by omega, hp.chain⟩
  all_goals cases he

/-- The check of a space that starts at a multiple of eight succeeds exactly if the space parses,
and then its objects are found one by one. Both walks end, whatever memory holds, and this says
where and how. The check reads headers only at multiples of eight. -/
theorem verify_eq_ok_iff_parses (hd : 8 ∣ s.bottom) (hle : s.bottom ≤ s.top)
    (hlt : s.top < Word.limit) (m : Memory) :
    (s.verify m = .ok () ↔ ∃ sizes, Parses s m sizes) ∧
    (∀ sizes, Parses s m sizes → s.objects m = .ok (ofSizes s.bottom sizes).toArray) ∧
    (∃ sizes stop,
      Passes Allowed m s.top s.bottom sizes stop ∧ 16 * sizes.length < s.top - s.bottom + 16 ∧
      8 ∣ stop ∧
      (stop = s.top ∧ s.verify m = .ok () ∨
        s.top < stop ∧ s.verify m = .error (.lastObjectPastTop stop s.top) ∨
        stop < s.top ∧ ¬ Allowed (m.load stop) ∧
          s.verify m = .error (.badObjectSize (m.load stop) stop) ∨
        stop < s.top ∧ Word.limit ≤ stop + m.load stop ∧ s.verify m = .error .overflow)) ∧
    ∃ sizes stop,
      Passes (0 < ·) m s.top s.bottom sizes stop ∧ sizes.length ≤ s.top - s.bottom ∧
      (s.top ≤ stop ∧ s.objects m = .ok (ofSizes s.bottom sizes).toArray ∨
        stop < s.top ∧ ¬ 8 ∣ stop ∧ s.objects m = .error (.misaligned stop) ∨
        stop < s.top ∧ 8 ∣ stop ∧ m.load stop = 0 ∧ s.objects m = .error (.zeroSizedObject stop) ∨
        stop < s.top ∧ 8 ∣ stop ∧ Word.limit ≤ stop + m.load stop ∧
          s.objects m = .error .overflow) := by
  refine ⟨⟨exists_parses_of_verify hd, ?_⟩, ?_, verify_ends hd m, s.objects_ends m⟩
  · intro ⟨sizes, h⟩
    exact h.verify_eq hd hle hlt
  · intro sizes h
    exact h.objects_eq hd hle hlt

/-- A space that holds two objects. -/
theorem verify_eq_ok_iff_parses_two :
    verify ⟨65536, 65592, 69632, 65536⟩ ((Memory.zero.setWord 8192 16).setWord 8194 40) = .ok () ∧
    objects ⟨65536, 65592, 69632, 65536⟩ ((Memory.zero.setWord 8192 16).setWord 8194 40) =
      .ok #[⟨65536, 16⟩, ⟨65552, 40⟩] := by
  obtain ⟨hverify, hobjects, -⟩ :=
    verify_eq_ok_iff_parses (s := ⟨65536, 65592, 69632, 65536⟩) (by decide) (by decide) (by decide)
      ((Memory.zero.setWord 8192 16).setWord 8194 40)
  have hp : Parses ⟨65536, 65592, 69632, 65536⟩
      ((Memory.zero.setWord 8192 16).setWord 8194 40) [16, 40] := by
    refine ⟨by decide, rfl, ?_⟩
    simp [Chain, Memory.load, Memory.wordAt_setWord]
  exact ⟨hverify.2 ⟨_, hp⟩, hobjects _ hp⟩

end LinearSpace

end Tenured
