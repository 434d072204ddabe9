import Tenured.Proofs.CrossingMap.Recorded

/-!
# Regions that the map can cover

A call that changes the covered part has four outcomes (`CrossingMap.Covers`), and which one it has
depends on the region alone (`CrossingMap.cover_eq_iff`): two faults for regions that leave the
reservation or begin or end inside a block, an overflow, and the map with the new covered part. The
overflow is that of a region's distance from the start of the reservation, and only an empty region
can be below it: such a region lies within every other one.

What an accepted region makes blank are the entries of the regions in `CrossingMap.cleared`.
`CrossingMap.Run.cover_outcome` says for every map when each outcome comes about, and where the
covered part can be.
-/

namespace Tenured.CrossingMap

variable {t : CrossingMap} {R : Finset Nat} {region : Region}

/-! ## The outcomes of a call -/

/-- The regions whose blocks lose their entries when another region is covered. -/
def cleared (t : CrossingMap) (region : Region) : List Region :=
  if t.covered.start = region.start then
    [⟨min t.covered.stop region.stop, max t.covered.stop region.stop, by omega⟩]
  else [t.covered, region]

theorem recover_eq_foldl (t : CrossingMap) (region : Region) :
    t.starts.recover t.covered region none =
      (t.cleared region).foldl (fun starts r => starts.fill r.start r.stop none) t.starts := by
  unfold BlockTable.recover cleared
  split <;> rfl

/-- What can become of a call that covers a region. -/
inductive Covers (t : CrossingMap) (region : Region) : Except Fault CrossingMap → Prop
  | outside (hi : ¬ t.reserved.includes region) :
    Covers t region (.error (.coverOutsideReserved region t.reserved))
  | below (he : region.isEmpty) (hlt : region.start < t.reserved.start) :
    Covers t region (.error .overflow)
  | unaligned (hi : t.reserved.includes region) (hle : t.reserved.start ≤ region.start)
    (hw : ¬ t.starts.WholeBlocks region) : Covers t region (.error (.coverNotBlockAligned region))
  | covered (hi : t.reserved.includes region) (hw : t.starts.WholeBlocks region) :
    Covers t region (.ok ⟨t.starts.recover t.covered region none, region⟩)

theorem isBlockAligned_of_lt (h : region.start < t.reserved.start) :
    t.isBlockAligned region = .error .overflow := by
  have hsub : Word.sub region.start t.reserved.start = .error .overflow := by
    rw [Word.sub, Word.sub?, if_neg (Nat.not_le.2 h)]
    rfl
  rw [isBlockAligned, hsub]
  rfl

theorem exists_isBlockAligned (h : t.reserved.start ≤ region.start) :
    ∃ aligned, t.isBlockAligned region = .ok aligned ∧
      (aligned = true ↔ t.starts.WholeBlocks region) := by
  have hle := region.start_le_stop
  have hfirst : Word.sub region.start t.reserved.start = .ok (region.start - t.reserved.start) :=
    Word.sub_eq_ok_iff.2 ⟨h, rfl⟩
  have hlast : Word.sub region.stop t.reserved.start = .ok (region.stop - t.reserved.start) :=
    Word.sub_eq_ok_iff.2 ⟨by omega, rfl⟩
  simp only [isBlockAligned, hfirst, hlast, bind, Except.bind]
  split
  · rename_i hn
    refine ⟨false, rfl, fun hf => absurd hf Bool.false_ne_true, fun hw => ?_⟩
    exact absurd (Nat.mod_eq_zero_of_dvd hw.dvd_start) hn
  · rename_i hz
    refine ⟨_, rfl, fun ha => ⟨h, ?_, ?_⟩, fun hw => ?_⟩
    · exact Nat.dvd_of_mod_eq_zero (Decidable.not_not.1 hz)
    · exact Nat.dvd_of_mod_eq_zero (beq_iff_eq.1 ha)
    · exact beq_iff_eq.2 (Nat.mod_eq_zero_of_dvd hw.dvd_stop)

theorem covers (t : CrossingMap) (region : Region) : Covers t region (t.cover region) := by
  by_cases hi : t.reserved.includes region = true
  · rcases Nat.lt_or_ge region.start t.reserved.start with hlt | hge
    · have he : region.isEmpty = true := by
        rw [Region.isEmpty_iff]
        rw [Region.includes_iff] at hi
        omega
      simp only [cover, check, hi, if_true, bind, Except.bind, isBlockAligned_of_lt hlt]
      exact .below he hlt
    · obtain ⟨aligned, ha, hw⟩ := exists_isBlockAligned hge
      simp only [cover, check, hi, if_true, bind, Except.bind, ha]
      cases aligned with
      | true => exact .covered hi (hw.1 rfl)
      | false => exact .unaligned hi hge fun hwhole => absurd (hw.2 hwhole) Bool.false_ne_true
  · simp only [cover, check, hi, bind, Except.bind]
    exact .outside hi

/-! ## When each outcome comes about -/

theorem includes_of_isEmpty (he : region.isEmpty = true) : t.reserved.includes region = true :=
  Region.includes_iff.2 (.inl (Region.isEmpty_iff.1 he))

/-- Each outcome rules out the other ones. -/
theorem Covers.unique {x y : Except Fault CrossingMap} (hx : Covers t region x)
    (hy : Covers t region y) : x = y := by
  cases hx with
  | outside hi =>
    cases hy with
    | outside => rfl
    | below he _ => exact absurd (includes_of_isEmpty he) hi
    | unaligned hi' _ _ => exact absurd hi' hi
    | covered hi' _ => exact absurd hi' hi
  | below he hlt =>
    cases hy with
    | outside hi => exact absurd (includes_of_isEmpty he) hi
    | below => rfl
    | unaligned _ hle _ => exact absurd hlt (Nat.not_lt.2 hle)
    | covered _ hw => exact absurd hlt (Nat.not_lt.2 hw.start_le)
  | unaligned hi hle hw =>
    cases hy with
    | outside hi' => exact absurd hi hi'
    | below _ hlt => exact absurd hlt (Nat.not_lt.2 hle)
    | unaligned => rfl
    | covered _ hw' => exact absurd hw' hw
  | covered hi hw =>
    cases hy with
    | outside hi' => exact absurd hi hi'
    | below _ hlt => exact absurd hlt (Nat.not_lt.2 hw.start_le)
    | unaligned _ _ hw' => exact absurd hw hw'
    | covered => rfl

theorem cover_eq_iff {x : Except Fault CrossingMap} : t.cover region = x ↔ Covers t region x :=
  ⟨fun hx => hx ▸ covers t region, (covers t region).unique⟩

theorem cover_eq_overflow_iff : t.cover region = .error .overflow ↔
    region.isEmpty = true ∧ region.start < t.reserved.start := by
  rw [cover_eq_iff]
  refine ⟨fun h => ?_, fun ⟨he, hlt⟩ => .below he hlt⟩
  cases h with
  | below he hlt => exact ⟨he, hlt⟩

theorem cover_eq_outside_iff : t.cover region = .error (.coverOutsideReserved region t.reserved) ↔
    ¬ t.reserved.includes region := by
  rw [cover_eq_iff]
  refine ⟨fun h => ?_, .outside⟩
  cases h with
  | outside hi => exact hi

theorem cover_eq_unaligned_iff : t.cover region = .error (.coverNotBlockAligned region) ↔
    t.reserved.includes region ∧ t.reserved.start ≤ region.start ∧
      ¬ t.starts.WholeBlocks region := by
  rw [cover_eq_iff]
  refine ⟨fun h => ?_, fun ⟨hi, hle, hw⟩ => .unaligned hi hle hw⟩
  cases h with
  | unaligned hi hle hw => exact ⟨hi, hle, hw⟩

theorem exists_cover_iff : (∃ t', t.cover region = .ok t') ↔
    t.reserved.includes region ∧ t.starts.WholeBlocks region := by
  refine ⟨fun ⟨t', ht⟩ => ?_, fun ⟨hi, hw⟩ => ⟨_, cover_eq_iff.2 (.covered hi hw)⟩⟩
  obtain ⟨hi, hw, -⟩ := cover_eq_ok ht
  exact ⟨hi, hw⟩

/-! ## Where the covered part is -/

namespace Refines

variable (h : Refines t R)
include h

/-- Only blocks of the reservation lose their entries. -/
theorem includes_cleared (hi : t.reserved.includes region) {r : Region}
    (hr : r ∈ t.cleared region) : t.reserved.includes r := by
  unfold cleared at hr
  split at hr
  · rename_i hs
    rw [List.mem_singleton.1 hr]
    exact Region.includes_stops h.includes hi hs
  · rcases List.mem_pair.1 hr with rfl | rfl
    · exact h.includes
    · exact hi

/-- The covered part leaves the reservation only when it is empty, and then beyond its end. -/
theorem covered_within : t.covered.stop ≤ t.reserved.stop ∨
    t.covered.isEmpty = true ∧ t.reserved.stop < t.covered.start := by
  have hi := Region.includes_iff.1 h.includes
  rw [Region.isEmpty_iff]
  omega

end Refines

/-- A call overflows exactly if it is to cover an empty region that begins below the reservation.
Otherwise it ends with one of the two faults, which leaves the map as it was, or the covered part
becomes the region and only blocks of the reservation lose their entries. The covered part always
begins at or above the start of the reservation, and it ends at or below its end unless it is empty
and beyond it. -/
theorem Run.cover_outcome (h : Run t R) (region : Region) :
    (t.cover region = .error .overflow ↔
      region.isEmpty = true ∧ region.start < t.reserved.start) ∧
    (t.cover region = .error (.coverOutsideReserved region t.reserved) ↔
      ¬ t.reserved.includes region) ∧
    (t.cover region = .error (.coverNotBlockAligned region) ↔
      t.reserved.includes region ∧ t.reserved.start ≤ region.start ∧
        ¬ t.starts.WholeBlocks region) ∧
    ((∃ t', t.cover region = .ok t') ↔
      t.reserved.includes region ∧ t.starts.WholeBlocks region) ∧
    (∀ t', t.cover region = .ok t' → t'.covered = region ∧ t'.reserved = t.reserved ∧
      t'.starts = (t.cleared region).foldl (fun starts r => starts.fill r.start r.stop none)
        t.starts ∧
      ∀ r ∈ t.cleared region, t.reserved.includes r) ∧
    t.reserved.start ≤ t.covered.start ∧
    (t.covered.stop ≤ t.reserved.stop ∨
      t.covered.isEmpty = true ∧ t.reserved.stop < t.covered.start) := by
  have hr := h.refines
  refine ⟨cover_eq_overflow_iff, cover_eq_outside_iff, cover_eq_unaligned_iff, exists_cover_iff,
    fun t' ht => ?_, hr.whole.start_le, hr.covered_within⟩
  obtain ⟨hi, -, rfl⟩ := cover_eq_ok ht
  exact ⟨rfl, BlockTable.span_recover .., recover_eq_foldl t region,
    fun r => hr.includes_cleared hi⟩

/-- Two of three blocks are covered. The whole reservation can be covered then, part of a block or
more than the reservation cannot. -/
theorem Run.cover_outcome_small : ∃ t t' : CrossingMap, Run t ∅ ∧
    t.covered = ⟨4096, 5120, by decide⟩ ∧
    t.cover ⟨4096, 5632, by decide⟩ = .ok t' ∧ t'.covered = ⟨4096, 5632, by decide⟩ ∧
    t.cover ⟨4096, 4616, by decide⟩ = .error (.coverNotBlockAligned ⟨4096, 4616, by decide⟩) ∧
    t.cover ⟨4096, 6144, by decide⟩ =
      .error (.coverOutsideReserved ⟨4096, 6144, by decide⟩ ⟨4096, 5632, by decide⟩) := by
  have hrun : ∃ a t : CrossingMap, ofReserved ⟨4096, 5632, by decide⟩ = .ok a ∧
      a.cover ⟨4096, 5120, by decide⟩ = .ok t ∧ t.covered = ⟨4096, 5120, by decide⟩ ∧
      t.starts.span = ⟨4096, 5632, by decide⟩ := ⟨_, _, rfl, rfl, rfl, rfl⟩
  obtain ⟨a, t, ha, ht, hcov, hspan⟩ := hrun
  have hr : Run t ∅ := kept_empty ▸ Run.cover (.reserve .new ha) ht
  have hres : t.reserved = ⟨4096, 5632, by decide⟩ := hspan
  obtain ⟨-, -, -, hok, hnew, -⟩ := Run.cover_outcome hr ⟨4096, 5632, by decide⟩
  obtain ⟨-, -, hpart, -⟩ := Run.cover_outcome hr ⟨4096, 4616, by decide⟩
  obtain ⟨-, hout, -⟩ := Run.cover_outcome hr ⟨4096, 6144, by decide⟩
  obtain ⟨t', ht'⟩ := hok.2 ⟨by rw [hres]; decide, by rw [hspan], by rw [hspan]; decide,
    by rw [hspan]; decide⟩
  refine ⟨t, t', hr, hcov, ht', (hnew t' ht').1, hpart.2 ⟨by rw [hres]; decide, by rw [hres],
    fun hw => ?_⟩, hres ▸ hout.2 (by rw [hres]; decide)⟩
  exact absurd hw.dvd_stop (by rw [hspan]; decide)

/-- To cover nothing below the reservation overflows, and to cover nothing beyond it is accepted. -/
theorem Run.cover_strays : ∃ t t' : CrossingMap, Run t ∅ ∧
    t.reserved = ⟨4096, 5632, by decide⟩ ∧ t.cover (.emptyAt 3584) = .error .overflow ∧
    t.cover (.emptyAt 8192) = .ok t' ∧ ¬ t'.covered.stop ≤ t'.reserved.stop := by
  have hrun : ∃ t t' : CrossingMap, ofReserved ⟨4096, 5632, by decide⟩ = .ok t ∧
      t.reserved = ⟨4096, 5632, by decide⟩ ∧ t.cover (.emptyAt 3584) = .error .overflow ∧
      t.cover (.emptyAt 8192) = .ok t' ∧ ¬ t'.covered.stop ≤ t'.reserved.stop :=
    ⟨_, _, rfl, rfl, rfl, rfl, by decide⟩
  obtain ⟨t, t', ht, h⟩ := hrun
  exact ⟨t, t', .reserve .new ht, h⟩

end Tenured.CrossingMap
