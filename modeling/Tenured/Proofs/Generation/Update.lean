import Tenured.Proofs.Action
import Tenured.Proofs.Generation.Frame

/-!
# The updates after a change of the committed part

There is one lemma for each update, which says what it ends in where its checks are met. Together
they give `Generation.settle_ends`: once the backing is committed up to a new end, the other parts
follow, and that can only fail where touching memory does (`Setup.CanGrow`), before which nothing
below the top was written (`Stuck`).
-/

namespace Tenured

theorem Memory.touchAll_nil (m : Memory) : m.touchAll [] = m := by
  simp [Memory.touchAll]

/-! ## Whole pages consist of whole cards and blocks -/

theorem Region.includes_of_bounds {r region : Region} (hs : region.start = r.start)
    (he : region.stop ≤ r.stop) : r.includes region := by
  simp only [Region.includes, hs, he, Nat.le_refl, decide_true, Bool.and_self, Bool.or_true]

theorem CardMarks.isCardStart_of_dvd {addr : Nat} (h : 4096 ∣ addr) : isCardStart addr := by
  simp only [isCardStart, cardSize, BlockTable.blockSize, beq_iff_eq]
  omega

theorem CrossingMap.isBlockAligned_of_dvd {t : CrossingMap} {region : Region}
    (hs : region.start = t.reserved.start) (h₁ : 4096 ∣ region.start) (h₂ : 4096 ∣ region.stop) :
    t.isBlockAligned region = .ok true := by
  have hd : 512 ∣ region.stop - region.start := Nat.dvd_trans (by decide) (Nat.dvd_sub h₂ h₁)
  have hfirst : Word.sub region.start t.reserved.start = .ok 0 :=
    Word.sub_eq_ok_iff.2 ⟨Nat.le_of_eq hs.symm, by rw [hs, Nat.sub_self]⟩
  have hlast : Word.sub region.stop t.reserved.start = .ok (region.stop - region.start) :=
    Word.sub_eq_ok_iff.2 ⟨hs ▸ region.start_le_stop, by rw [hs]⟩
  simp only [isBlockAligned, hfirst, hlast, bind, Except.bind]
  simp only [blockSize, Nat.mod_eq_zero_of_dvd hd, ne_eq, Nat.zero_mod, not_true_eq_false, if_false]
  rfl

theorem Generation.checkCards_of_dvd {t : CardMarks} {region : Region} (h₁ : 4096 ∣ region.start)
    (h₂ : 4096 ∣ region.stop) : checkCards t region = .ok () := by
  simp only [checkCards, check, CardMarks.isCardStart_of_dvd h₁, CardMarks.isCardStart_of_dvd h₂,
    or_true, if_true]
  rfl

/-! ## What is new -/

/-- Where the bottom stays, only what lies above the old end is new. -/
theorem LinearSpace.newTouches_eq {s : LinearSpace} {region : Region} (plan : TouchPlan)
    (hb : s.bottom = region.start) (hs : s.bottom ≤ s.stop) (hlt : s.stop < region.stop) :
    s.newTouches region plan = plan.touches s.stop region.stop := by
  by_cases he : s.bottom = s.stop
  · rw [newTouches, if_pos he, ← he, hb]
  · have hh : ¬ region.start < s.bottom := by omega
    rw [newTouches, if_neg he, Nat.max_eq_left (by omega)]
    simp only [hlt, hh, if_true, if_false]
    cases plan.touches s.stop region.stop with
    | ok addrs => exact congrArg Except.ok (List.append_nil addrs)
    | error e => rfl

namespace Generation

/-- Memory can be touched wherever growth may ask for that, and the least step is a word. -/
structure Setup.CanGrow (s : Setup) : Prop where
  exists_touches : s.config.touchCommitted = true → ∀ start stop, s.reserved.start ≤ start →
    stop ≤ s.reserved.stop → ∃ addrs, s.touchPlan.touches start stop = .ok addrs
  step_lt : s.config.perNode = true → s.config.alignment * s.nodes < Word.limit

/-- Growth that touches nothing and provides for no nodes asks for nothing. -/
theorem Setup.canGrow_of_false {s : Setup} (ht : s.config.touchCommitted = false)
    (hn : s.config.perNode = false) : s.CanGrow where
  exists_touches h := by rw [ht] at h; cases h
  step_lt h := by rw [hn] at h; cases h

/-- What growth has to touch of a region can be touched. -/
theorem Setup.CanGrow.exists_newTouches {s : Setup} (hc : s.CanGrow)
    (ht : s.config.touchCommitted = true) {o : LinearSpace} {region : Region}
    (hb : o.bottom = region.start) (hs : o.bottom ≤ o.stop) (hlt : o.stop < region.stop)
    (hlow : s.reserved.start ≤ o.bottom) (hhigh : region.stop ≤ s.reserved.stop) :
    ∃ addrs, o.newTouches region s.touchPlan = .ok addrs := by
  rw [LinearSpace.newTouches_eq s.touchPlan hb hs hlt]
  exact hc.exists_touches ht _ _ (Nat.le_trans hlow hs) hhigh

/-- What a generation is left as by growth that ends with a fault. -/
structure Stuck (g g' : Generation) : Prop where
  not_canGrow : ¬ g.setup.CanGrow
  keeps : Keeps g g'

theorem Stuck.of_keeps {g g' g'' : Generation} (hk : Keeps g g') (hs : g'.setup = g.setup)
    (h : Stuck g' g'') : Stuck g g'' :=
  ⟨hs ▸ h.not_canGrow, hk.trans h.keeps⟩

open Tenured.Action

variable {g : Generation} {region : Region} {Q : Unit → Generation → Prop}
  {E : Fault → Generation → Prop}

/-! ## One update after another -/

theorem ends_forM_cons {u : Update} {us : List Update} :
    Ends (List.forM (u :: us) Update.apply) g Q E ↔
      Ends u.apply g (fun _ g' => Ends (List.forM us Update.apply) g' Q E) E :=
  ends_bind

theorem ends_mangle (h : g.objects.stop < region.stop) (hd : 8 ∣ region.start) :
    Ends (Update.apply (.mangle region)) g Q E ↔ Q () { g with
      memory := g.memory.fill (region.start / Object.wordSize) region.words
        LinearSpace.manglePattern } := by
  have hm : LinearSpace.mangle g.memory region = .ok (g.memory.fill
      (region.start / Object.wordSize) region.words LinearSpace.manglePattern) := by
    simp only [LinearSpace.mangle, check, Nat.mod_eq_zero_of_dvd hd, if_true]; rfl
  have hc : check (g.objects.stop < region.stop) .endNotBelowNewHigh = .ok () :=
    check_eq_ok_iff.2 h
  simp only [Update.apply, ends_bind, ends_get, ends_lift_of_eq hc, ends_lift_of_eq hm, ends_set]

theorem ends_coverCards (hr : g.cards.heap.includes region)
    (hs : CardMarks.isCardStart region.start) :
    Ends (Update.apply (.coverCards region)) g Q E ↔ Q () { g with
      coverChanges := g.coverChanges.push ⟨.cards, region, g.objects.stop, g.cards.covered⟩
      cards := ⟨g.cards.cards.recover g.cards.covered region false, region⟩ } := by
  have h : g.cards.cover region =
      .ok ⟨g.cards.cards.recover g.cards.covered region false, region⟩ := by
    simp only [CardMarks.cover, check, hr, hs, if_true]; rfl
  simp only [Update.apply, coverCards, noteCover, ends_bind, ends_get, ends_modify, ends_set,
    ends_lift_of_eq h]

theorem ends_coverCrossings (hr : g.crossings.reserved.includes region)
    (ha : g.crossings.isBlockAligned region = .ok true) :
    Ends (Update.apply (.coverCrossings region)) g Q E ↔ Q () { g with
      coverChanges := g.coverChanges.push ⟨.crossings, region, g.objects.stop, g.cards.covered⟩
      crossings := ⟨g.crossings.starts.recover g.crossings.covered region none, region⟩ } := by
  have h : g.crossings.cover region =
      .ok ⟨g.crossings.starts.recover g.crossings.covered region none, region⟩ := by
    simp only [CrossingMap.cover, check, hr, ha, if_true]; rfl
  simp only [Update.apply, coverCrossings, noteCover, ends_bind, ends_get, ends_modify, ends_set,
    ends_lift_of_eq h]

theorem ends_touchNew : Ends (Update.apply (.touchNew region)) g Q E ↔
    (∀ addrs, g.objects.newTouches region ⟨g.workers, g.cursor.stride⟩ = .ok addrs →
      Q () { g with memory := g.memory.touchAll addrs }) ∧
    ∀ e, g.objects.newTouches region ⟨g.workers, g.cursor.stride⟩ = .error e → E e g := by
  simp only [Update.apply, LinearSpace.touchNew, ends_bind, ends_get, ends_set, ends_lift]
  cases g.objects.newTouches region ⟨g.workers, g.cursor.stride⟩ with
  | ok addrs =>
    exact ⟨fun h => ⟨fun _ ha => by cases ha; exact h.1 _ rfl, nofun⟩,
      fun h => ⟨fun _ ha => by cases ha; exact h.1 addrs rfl, nofun⟩⟩
  | error e => exact ⟨fun h => ⟨nofun, fun _ he => by cases he; exact h.2 e rfl⟩,
      fun h => ⟨nofun, fun _ he => by cases he; exact h.2 e rfl⟩⟩

theorem ends_setBottom (h : region.start ≤ g.objects.top ∧ g.objects.top ≤ region.stop) :
    Ends (Update.apply (.setBottom region)) g Q E ↔
      Q () { g with objects := { g.objects with bottom := region.start } } := by
  have h : g.objects.setBottom region = .ok { g.objects with bottom := region.start } := by
    simp only [LinearSpace.setBottom, check, h, and_self, if_true]; rfl
  simp only [Update.apply, ends_bind, ends_get, ends_set, ends_lift_of_eq h]

/-! ## All parts follow -/

theorem updates_eq {touched : Bool} : updates region touched =
    .coverCards region :: .coverCrossings region ::
      if touched then
        [.touchNew region, .setBottom region, .setStop region.stop, .advanceCursor region.stop]
      else [.setBottom region, .setStop region.stop, .retreatCursor region.stop] := by
  cases touched <;> rfl

/-- The parts followed the committed part, and memory was touched if `touched` says so. -/
structure Settled (g : Generation) (region : Region) (touched : Bool) (g' : Generation) : Prop
    extends Covers g region g' where
  backing_eq : g'.backing = g.backing
  cursor_eq : g'.cursor =
    if touched then g.cursor.advance region.stop else g.cursor.retreat region.stop
  memory_eq : ∃ addrs,
    (if touched then g.setup.touchPlan.touches g.objects.stop region.stop = .ok addrs
      else addrs = []) ∧ g'.memory = g.memory.touchAll addrs

namespace Committed

variable (h : Committed g region)
include h

theorem isCardStart_start : CardMarks.isCardStart region.start :=
  CardMarks.isCardStart_of_dvd h.page_dvd_start

theorem reserved_includes : g.reserved.includes region :=
  Region.includes_of_bounds h.start_eq h.stop_le

theorem heap_includes : g.cards.heap.includes region := by
  rw [CardMarks.heap, show g.cards.cards.span = g.reserved from h.sound.cardSpan_eq]
  exact h.reserved_includes

theorem crossings_includes : g.crossings.reserved.includes region := by
  rw [CrossingMap.reserved, show g.crossings.starts.span = g.reserved from h.sound.crossingSpan_eq]
  exact h.reserved_includes

theorem isBlockAligned : g.crossings.isBlockAligned region = .ok true := by
  have hr : g.crossings.reserved = g.reserved := h.sound.crossingSpan_eq
  exact CrossingMap.isBlockAligned_of_dvd (h.start_eq.trans (congrArg Region.start hr.symm))
    h.page_dvd_start h.page_dvd_stop

/-- Bringing all parts in line with the committed part. Where it grew, its end passed that of the
linear space. -/
theorem settle_ends (grown : Bool) (hb : region.start = g.objects.bottom)
    (hs : g.objects.bottom ≤ g.objects.stop)
    (ht : region.start ≤ g.objects.top ∧ g.objects.top ≤ region.stop)
    (hg : grown = true → g.objects.stop < region.stop)
    (hE : grown = true → ¬ g.setup.CanGrow →
      ∀ e g', g'.objects = g.objects → g'.memory = g.memory → E e g') :
    Ends (settle grown) g
      (fun _ g' => Settled g region (grown && g.config.touchCommitted) g') E := by
  unfold settle
  refine ends_bind.2 (ends_get.2 (ends_bind.2 ((ends_lift_of_eq h.committedPart).2 ?_)))
  have hcards : checkCards g.cards region = .ok () :=
    checkCards_of_dvd h.page_dvd_start h.page_dvd_stop
  refine ends_bind.2 ((ends_lift_of_eq hcards).2 ?_)
  rw [updates_eq]
  refine ends_forM_cons.2 ((ends_coverCards h.heap_includes h.isCardStart_start).2 ?_)
  refine ends_forM_cons.2 ((ends_coverCrossings ?_ ?_).2 ?_)
  · exact h.crossings_includes
  · exact h.isBlockAligned
  dsimp only
  cases hgt : grown && g.config.touchCommitted with
  | false =>
    refine ends_forM_cons.2 ((ends_setBottom ?_).2 ?_)
    · exact ht
    refine ⟨⟨?_, hb, h.dvd_stop, h.high_eq, rfl, rfl, rfl⟩, rfl, rfl, [], rfl, ?_⟩
    · simp only [setup, BlockTable.span_recover, BlockTable.size_recover, TouchCursor.retreat]
    · exact (Memory.touchAll_nil _).symm
  | true =>
    rw [Bool.and_eq_true] at hgt
    have hn := LinearSpace.newTouches_eq g.setup.touchPlan hb.symm hs (hg hgt.1)
    refine ends_forM_cons.2 (ends_touchNew.2 ⟨fun addrs ha => ?_, fun e he => ?_⟩)
    · dsimp only
      refine ends_forM_cons.2 ((ends_setBottom ?_).2 ?_)
      · exact ht
      refine ⟨⟨?_, hb, h.dvd_stop, h.high_eq, rfl, rfl, rfl⟩, rfl, rfl, addrs, ?_, rfl⟩
      · simp only [setup, BlockTable.span_recover, BlockTable.size_recover, TouchCursor.advance]
      · exact hn.symm.trans ha
    · refine hE hgt.1 (fun hc => ?_) e _ rfl rfl
      obtain ⟨addrs, ha⟩ := hc.exists_newTouches hgt.2 hb.symm hs (hg hgt.1)
        (Nat.le_of_eq (h.start_eq.symm.trans hb)) h.stop_le
      cases ha.symm.trans he

end Committed

end Generation

end Tenured
