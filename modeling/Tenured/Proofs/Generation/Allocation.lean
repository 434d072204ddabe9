import Tenured.Generation.Allocation
import Tenured.Proofs.Generation.Resize
import Tenured.Proofs.LinearSpace

/-!
# Allocation, step by step

* `Generation.handOut_ends`: a block is handed out if it fits (`HandsOut`).
* `Generation.makeRoom_ends`, `Generation.growAndHandOut_ends`: growth for a block.
* `Generation.allocate_ends`: growth and tries to hand out a block follow each other until the block
  fits or nothing more is granted (`Allocates`). What is left to commit bounds the tries.
-/

namespace Tenured

open Object (wordSize minWords)

namespace Word

theorem mulSat_of_lt {a b : Nat} (h : a * b < limit) : mulSat a b = a * b :=
  Nat.min_eq_left (Nat.le_of_lt_succ h)

theorem mulSat_lt (a b : Nat) : mulSat a b < limit :=
  Nat.lt_succ_of_le (Nat.min_le_right ..)

theorem mulSat_pos {a b : Nat} (h : 0 < a * b) : 0 < mulSat a b :=
  Nat.lt_min.2 ⟨h, by decide⟩

end Word

/-- Blocks of at least two words have a size that objects may have. -/
theorem Object.checkSize_eq_ok {words : Nat} (h : minWords ≤ words) :
    checkSize (words * wordSize) = .ok () := by
  have hs : minSize ≤ words * wordSize := Nat.mul_le_mul_right _ h
  have hm : words * wordSize % alignment = 0 := Nat.mul_mod_left ..
  simp only [checkSize, check, hs, hm, if_true]
  rfl

namespace Generation

open Tenured.Action

variable {g g' g'' : Generation} {old region : Region} {words : Nat}
  {E : Fault → Generation → Prop}

/-! ## A block that fits -/

theorem touchAhead_ends (h : Within g) {addr : Nat} :
    Ends (touchAhead addr words) g
      (fun _ g' => TouchedAhead g addr (Word.mulSat words wordSize) g') fun _ g' =>
        g' = g ∧ Word.limit ≤ addr + Word.mulSat words wordSize := by
  unfold touchAhead
  refine ends_bind.2 (ends_get.2 (ends_bind.2 (ends_lift.2 ⟨fun p hp => ?_, fun e he => ?_⟩)))
  · obtain ⟨cursor, touched⟩ := p
    have hf := TouchCursor.Follows.of_follow h.sound.isPowerOfTwo_stride h.stop_lt h.cursor_le hp
    have hs : ({ g with cursor } : Generation).setup = g.setup := by
      simp only [setup, hf.stride_eq, hf.limit_eq]
    refine ends_bind.2 (ends_set.2 ?_)
    cases touched with
    | none => exact ⟨hs, rfl, rfl, rfl, rfl, none, hp, (Memory.touchAll_nil _).symm⟩
    | some a =>
      refine ends_modify.2 ⟨hs, rfl, rfl, rfl, rfl, some a, hp, ?_⟩
      simp [mapMemory, Memory.touch, Memory.touchAll]
  · refine ⟨rfl, ?_⟩
    by_cases hlt : addr + Word.mulSat words wordSize < Word.limit
    · obtain ⟨p, hp⟩ := TouchCursor.exists_follow (c := g.cursor) hlt
      cases hp.symm.trans he
    · exact Nat.le_of_not_lt hlt

/-- What handing out a block of so many words ends in. -/
inductive HandsOut (g : Generation) (words : Nat) : Option Nat → Generation → Prop
  | none (h : g.objects.stop < g.objects.top + words * wordSize) : HandsOut g words none g
  | some {mid g' : Generation} (hc : Carved g words mid)
    (ht : TouchedAhead mid g.objects.top (words * wordSize) g') :
    HandsOut g words (some g.objects.top) g'

/-- The top of a generation with room above it can be recorded as the start of an object. -/
theorem Within.checkStart (h : Within g) (hlt : g.objects.top < g.objects.stop) :
    g.crossings.checkStart g.objects.top =
      .ok (g.crossings.starts.blockAt g.objects.top) := by
  have hc : g.objects.top ∈ g.crossings.covered :=
    ⟨h.crossings_start ▸ h.bottom_le_top, Nat.lt_of_lt_of_le hlt h.le_crossings⟩
  have hm : g.objects.top % wordSize = 0 := Nat.mod_eq_zero_of_dvd h.dvd_top
  have hr : g.objects.top ∈ g.crossings.starts.span := by
    rw [h.span_eq, Region.mem_def, ← h.bottom_eq]
    exact ⟨h.bottom_le_top, Nat.lt_of_lt_of_le hlt h.stop_le⟩
  simp only [CrossingMap.checkStart, check, hc, hm, if_true, bind, Except.bind,
    BlockTable.blockOf_eq_ok hr]

/-- A block can be handed out wherever both side tables cover the linear space. -/
theorem handOut_ends (h : Within g) :
    Ends (handOut words) g (HandsOut g words) fun _ g' => g' = g ∧ words < minWords := by
  have hl := h.stop_lt
  unfold handOut
  refine ends_bind.2 (ends_check.2 ⟨fun hw => ends_bind.2 (ends_get.2 (ends_bind.2 ?_)),
    fun hw => ⟨rfl, Nat.lt_of_not_le hw⟩⟩)
  rcases Nat.lt_or_ge g.objects.stop (g.objects.top + words * wordSize) with hlt | hge
  · refine (ends_lift_of_eq (LinearSpace.handOut_of_lt hl hlt)).2 ?_
    exact ends_bind.2 (ends_modify.2 (.none hlt))
  · refine (ends_lift_of_eq (LinearSpace.handOut_of_le hl h.dvd_top hge)).2 ?_
    have hpos : 0 < words * wordSize := Nat.mul_pos (Nat.lt_of_lt_of_le (by decide) hw) (by decide)
    have htop : g.objects.top < g.objects.stop := by omega
    refine ends_bind.2 (ends_modify.2 (ends_bind.2 ?_))
    refine ends_bind.2 ((ends_lift_of_eq (Memory.checkAligned_eq_ok h.dvd_top)).2 ?_)
    refine ends_bind.2 ((ends_lift_of_eq (Object.checkSize_eq_ok hw)).2 (ends_modify.2 ?_))
    refine ends_bind.2 (ends_bind.2 (ends_get.2 (ends_bind.2 ?_)))
    refine (ends_lift_of_eq (h.checkStart htop)).2 (ends_modify.2 ?_)
    have hc : Carved g words { g with
        memory := g.memory.store g.objects.top (words * wordSize)
        crossings := g.crossings.recordAt (g.crossings.starts.blockAt g.objects.top) g.objects.top
        objects := { g.objects with top := g.objects.top + words * wordSize } } := by
      refine ⟨hw, hge, ?_, rfl, rfl, rfl, rfl, rfl, rfl⟩
      simp only [setup, CrossingMap.recordAt, BlockTable.span_set, BlockTable.size_set]
    have hm : Word.mulSat words wordSize = words * wordSize := Word.mulSat_of_lt (by omega)
    refine ends_bind.2 ((touchAhead_ends (hc.within h)).mono (fun _ g' ht => ?_) fun _ _ he => ?_)
    · exact .some hc (hm ▸ ht)
    · have := he.2
      rw [hm] at this
      omega

/-! ## Growth for a block -/

/-- What growing for a block of so many words ends in, unless it fits already. -/
inductive MakesRoom (g : Generation) (words : Nat) : Bool → Generation → Prop
  | fits (h : words ≤ (g.objects.stop - g.objects.top) / wordSize) : MakesRoom g words true g
  | grows {granted : Bool} {g' : Generation}
    (h : Grows g (Word.mulSat words wordSize) granted g') : MakesRoom g words granted g'

theorem makeRoom_ends (h : InLine g old) :
    Ends (makeRoom words) g (MakesRoom g words) fun _ g' =>
      Stuck g g' ∨ g' = g ∧ words = 0 := by
  unfold makeRoom
  refine ends_bind.2 (ends_check.2 ⟨fun _ => ends_bind.2 (ends_get.2 (ends_ite.2 ⟨?_, ?_⟩)),
    fun hw => .inr ⟨rfl, Nat.eq_zero_of_not_pos hw⟩⟩)
  · exact fun _ => (grow_ends h).mono (fun _ _ hg => .grows hg) fun _ _ he => .inl he
  · exact fun hf => .fits (Nat.le_of_not_lt hf)

/-- The generation may have grown, and no block was handed out. -/
structure Raised (g g' : Generation) : Prop where
  changes : Changes g [] g'
  top_eq : g'.objects.top = g.objects.top
  stop_le : g.objects.stop ≤ g'.objects.stop

theorem Raised.refl (g : Generation) : Raised g g :=
  ⟨.refl, rfl, Nat.le_refl _⟩

theorem Raised.trans (h : Raised g g') (h' : Raised g' g'') : Raised g g'' :=
  ⟨h.changes.trans h'.changes, h'.top_eq.trans h.top_eq, Nat.le_trans h.stop_le h'.stop_le⟩

theorem Alike.raised (h : Alike g g') : Raised g g' :=
  ⟨.single (.alike h), by rw [h.objects_eq], Nat.le_of_eq (by rw [h.objects_eq])⟩

theorem Grown.raised (h : Grown g region g') : Raised g g' :=
  ⟨.single (.grown h), by rw [h.objects_eq], by rw [h.objects_eq]; exact Nat.le_of_lt h.stop_lt⟩

theorem Grows.raised {bytes : Nat} {granted : Bool} (h : Grows g bytes granted g') :
    Raised g g' := by
  cases h with
  | nothing ha _ => exact ha.raised
  | grown hg _ => exact hg.raised
  | refused ha _ => exact ha.raised

/-- What an allocation of so many words ends in. -/
inductive Allocates (g : Generation) (words : Nat) : Except Error Nat → Generation → Prop
  | ok {g₁ g' : Generation} (h : Raised g g₁) (ho : HandsOut g₁ words (some g.objects.top) g') :
    Allocates g words (.ok g.objects.top) g'
  | full {g' : Generation} (h : Raised g g')
    (hs : g'.objects.stop < g'.objects.top + words * wordSize)
    (hr : (∀ n m b, g.backing.grants n m b = true) → g'.objects.stop = g'.reserved.stop) :
    Allocates g words (.error (outOfMemory words g')) g'

theorem Allocates.of_raised {r : Except Error Nat} (h : Raised g g')
    (ha : Allocates g' words r g'') : Allocates g words r g'' := by
  cases ha with
  | ok hr ho => rw [h.top_eq] at ho ⊢; exact .ok (h.trans hr) ho
  | full hr hs hg =>
    refine .full (h.trans hr) hs fun hgrants => hg ?_
    rwa [show g'.backing.grants = g.backing.grants from congrArg Setup.grants h.changes.setup_eq]

/-- Every try but the last is followed by growth, so what is left bounds the number of tries. -/
theorem allocateWithin_ends (hw : minWords ≤ words) {tries : Nat} (h : InLine g old)
    (ht : g.reserved.stop - g.objects.stop < tries) :
    Ends (allocateWithin words tries) g (Allocates g words) fun _ g' => Stuck g g' := by
  induction tries generalizing g old with
  | zero => omega
  | succ tries ih =>
    refine ends_bind.2 ((handOut_ends h.within).mono (fun r g₁ h₁ => ?_) fun _ _ he => by omega)
    cases h₁ with
    | some hc ht => exact .ok (Raised.refl g) (.some hc ht)
    | none hlt =>
      have hne : 0 < words := Nat.lt_of_lt_of_le (by decide) hw
      have hpos : 0 < words * wordSize := Nat.mul_pos hne (by decide)
      refine ends_bind.2 ((makeRoom_ends h).mono (fun granted g₂ h₂ => ?_) fun _ _ he => ?_)
      · cases h₂ with
        | fits hf =>
          have := Nat.mul_le_of_le_div wordSize _ _ hf
          omega
        | grows hg =>
          cases hg with
          | nothing ha hb =>
            have := hb (Word.mulSat_lt ..)
            have := Word.mulSat_pos hpos
            omega
          | grown hg hs =>
            have hlt := hg.stop_lt
            have hle := hg.stop_le
            have hstop : g₂.objects.stop = _ := congrArg LinearSpace.stop hg.objects_eq
            have hres := reserved_eq_of_setup hg.setup_eq
            have := ih (hg.inLine h) (by rw [hstop, hres]; simp only; omega)
            exact this.mono (fun _ _ ha => ha.of_raised hg.raised) fun _ _ he =>
              he.of_keeps (hg.keeps (h.end_eq ▸ h.top_le)) hg.setup_eq
          | refused ha hr =>
            refine .full ha.raised ?_ fun hg => ?_
            · rw [ha.objects_eq]; exact hlt
            · rw [ha.objects_eq, reserved_eq_of_setup ha.setup_eq]; exact hr hg
      · rcases he with he | he
        · exact he
        · exact absurd he.2 (Nat.ne_of_gt hne)

theorem allocate_ends (hw : minWords ≤ words) (h : InLine g old) :
    Ends (allocate words) g (Allocates g words) fun _ g' => Stuck g g' := by
  unfold allocate
  rw [if_neg (Nat.not_lt.2 hw)]
  refine ends_bind.2 (ends_get.2 (allocateWithin_ends hw h ?_))
  rw [h.base_left, h.end_eq]
  exact Nat.lt_succ_self _

/-- A request for less than the smallest object changes nothing. -/
theorem ends_allocate_of_lt (hw : words < minWords) :
    Ends (allocate words) g (fun r g' => g' = g ∧ ∃ e, r = .error e) E := by
  unfold allocate
  rw [if_pos hw]
  exact ⟨rfl, _, rfl⟩

theorem growAndHandOut_ends (h : InLine g old) :
    Ends (growAndHandOut words) g
      (fun r g' => ∃ granted g₁, Grows g (Word.mulSat words wordSize) granted g₁ ∧
        HandsOut g₁ words r g') fun _ g' =>
          Keeps g g' ∧ (¬ g.setup.CanGrow ∨ words < minWords) := by
  unfold growAndHandOut
  refine ends_bind.2 (ends_get.2 (ends_bind.2 (ends_discard.2 ?_)))
  refine (grow_ends h).mono (fun granted g₁ h₁ => ?_) fun _ _ he => ⟨he.keeps, .inl he.not_canGrow⟩
  obtain ⟨new, hnew⟩ := h₁.inLine h
  exact (handOut_ends hnew.within).mono (fun _ _ ho => ⟨granted, g₁, h₁, ho⟩) fun _ _ he =>
    ⟨he.1 ▸ h₁.raised.changes.keeps h, .inr he.2⟩

end Generation

end Tenured
