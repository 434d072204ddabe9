import Tenured.Proofs.Generation.Commit

/-!
# Growth, release and resize

* `Generation.grow_ends`: growth by at least so many bytes, or by all that is left (`Grows`).
* `Generation.giveBack_ends`: a release of so many bytes, rounded down (`GivesBack`).
* `Generation.resize_ends`: a resize does at most one of the two, and aims within the bounds
  (`Resizes`). `InLine.exists_resize` and `InLine.resize_error` say when it has a result.
-/

namespace Tenured.Generation

open Tenured.Action

variable {g g' g'' : Generation} {old region : Region} {bytes : Nat}
  {E : Fault → Generation → Prop}

/-! ## Books that are kept before a change -/

theorem mangledUpTo_eq_of_alike (ha : Alike g g') (stop : Nat) :
    g'.mangledUpTo stop = g.mangledUpTo stop := by
  rw [mangledUpTo, config_eq_of_setup ha.setup_eq, ha.memory_eq, ha.objects_eq, mangledUpTo]

theorem touchesUpTo_of_alike (ha : Alike g g') {stop : Nat} {addrs : List Nat}
    (h : g'.TouchesUpTo stop addrs) : g.TouchesUpTo stop addrs := by
  rw [TouchesUpTo, config_eq_of_setup ha.setup_eq, ha.setup_eq, ha.objects_eq] at h
  exact h

theorem Covers.of_alike (ha : Alike g g') (h : Covers g' region g'') : Covers g region g'' where
  setup_eq := h.setup_eq.trans ha.setup_eq
  start_eq := by rw [← ha.objects_eq]; exact h.start_eq
  dvd_stop := by rw [← config_eq_of_setup ha.setup_eq]; exact h.dvd_stop
  high_eq := h.high_eq
  cards_eq := by rw [← ha.cards_eq]; exact h.cards_eq
  crossings_eq := by rw [← ha.crossings_eq]; exact h.crossings_eq
  objects_eq := by rw [← ha.objects_eq]; exact h.objects_eq

theorem Grown.of_alike (ha : Alike g g') (h : Grown g' region g'') : Grown g region g'' where
  toCovers := h.toCovers.of_alike ha
  stop_lt := by rw [← ha.objects_eq]; exact h.stop_lt
  stop_le := by rw [← reserved_eq_of_setup ha.setup_eq]; exact h.stop_le
  cursor_eq := by
    rw [← config_eq_of_setup ha.setup_eq, ← ha.cursor_eq]; exact h.cursor_eq
  memory_eq := by
    obtain ⟨addrs, ht, hm⟩ := h.memory_eq
    exact ⟨addrs, touchesUpTo_of_alike ha ht, mangledUpTo_eq_of_alike ha _ ▸ hm⟩

theorem Stuck.of_alike (ha : Alike g g') (h : Stuck g' g'') : Stuck g g'' :=
  h.of_keeps ha.keeps ha.setup_eq

theorem Alike.guard_eq (ha : Alike g g') : g'.guard = g.guard :=
  congrArg Guard.mk (congrArg Setup.id ha.setup_eq)

/-! ## Growth -/

/-- What growing by at least so many bytes ends in. Something is granted as long as something is
left and no commit is refused. -/
inductive Grows (g : Generation) (bytes : Nat) : Bool → Generation → Prop
  | nothing {g' : Generation} (h : Alike g g') (hb : bytes < Word.limit → bytes = 0) :
    Grows g bytes true g'
  | grown {region : Region} {g' : Generation} (h : Grown g region g')
    (hs : bytes < Word.limit →
      g.objects.stop + bytes ≤ region.stop ∨ region.stop = g.reserved.stop) :
    Grows g bytes true g'
  | refused {g' : Generation} (h : Alike g g')
    (hr : (∀ n m b, g.backing.grants n m b = true) → g.objects.stop = g.reserved.stop) :
    Grows g bytes false g'

theorem Grows.of_alike (ha : Alike g g') {granted : Bool} (h : Grows g' bytes granted g'') :
    Grows g bytes granted g'' := by
  cases h with
  | nothing h hb => exact .nothing (ha.trans h) hb
  | grown h hs =>
    rw [ha.objects_eq, reserved_eq_of_setup ha.setup_eq] at hs
    exact .grown (h.of_alike ha) hs
  | refused h hr =>
    rw [ha.objects_eq, reserved_eq_of_setup ha.setup_eq,
      show g'.backing.grants = g.backing.grants from congrArg Setup.grants ha.setup_eq] at hr
    exact .refused (ha.trans h) hr

/-- The least step is a word, or growth has a fault. -/
theorem InLine.leastStep_cases (h : InLine g old) :
    (∃ step, g.leastStep = .ok step) ∨ (∃ e, g.leastStep = .error e) ∧ ¬ g.setup.CanGrow := by
  have ha : g.backing.alignment.isPowerOfTwo :=
    h.backing_alignment ▸ h.sound.usable.isPowerOfTwo_alignment
  simp only [leastStep, Rounding.up_eq_ok ha, bind, Except.bind]
  split
  · rename_i hp
    cases hm : Word.mul g.backing.alignment g.nodes with
    | ok n => exact .inl ⟨_, rfl⟩
    | error e =>
      refine .inr ⟨⟨e, rfl⟩, fun hc => ?_⟩
      have := Word.mul_eq_ok_iff.2 ⟨hc.step_lt hp, rfl⟩
      rw [h.backing_alignment] at hm
      cases this.symm.trans hm
  · exact .inl ⟨_, rfl⟩

/-- A request rounded to the alignment is no smaller, unless there is no word to round up to. -/
theorem alignedRequest_eq_ok (bytes : Nat) {a : Nat} (ha : a.isPowerOfTwo) (hl : a < Word.limit) :
    ∃ request, alignedRequest bytes a = .ok request ∧ a ∣ request ∧
      (bytes < Word.limit → bytes ≤ request ∨ Word.limit ≤ request + a) := by
  have hpos := Nat.pos_of_isPowerOfTwo ha
  have hdl := Rounding.dvd_limit ha hl
  simp only [alignedRequest, Rounding.up_eq_ok ha, Rounding.down_eq_ok ha, bind, Except.bind]
  split
  · rename_i hz
    refine ⟨_, rfl, Rounding.dvd_roundDown ha, fun hb => ?_⟩
    by_cases hlt : bytes + (a - 1) < Word.limit
    · have := Rounding.le_roundUp_of_lt ha hlt
      omega
    · have := Rounding.le_roundDown ha (Nat.dvd_sub hdl (Nat.dvd_refl a)) (v := bytes) (by omega)
      omega
  · rename_i hz
    refine ⟨_, rfl, Rounding.dvd_roundUp ha, fun hb => .inl ?_⟩
    by_cases hlt : bytes + (a - 1) < Word.limit
    · exact Rounding.le_roundUp_of_lt ha hlt
    · exact absurd (Rounding.roundUp_eq_zero ha hl hb (Nat.le_of_not_lt hlt)) hz

/-- Growth by no less than a request reaches what was asked for, or the end of the reservation. -/
theorem InLine.reaches (h : InLine g old) {request n : Nat}
    (hq : bytes ≤ request ∨ Word.limit ≤ request + g.config.alignment) (hn : request ≤ n)
    (hs : region.stop = g.objects.stop + n) (hle : region.stop ≤ g.reserved.stop) :
    g.objects.stop + bytes ≤ region.stop ∨ region.stop = g.reserved.stop := by
  rcases hq with hq | hq
  · omega
  · have := Rounding.add_le_of_dvd_of_lt h.sound.dvd_stop
      (Rounding.dvd_limit h.sound.usable.isPowerOfTwo_alignment h.sound.alignment_lt)
      h.sound.stop_lt
    simp only [setup] at this
    omega

/-- Where no commit is refused, all that is left is granted if something is. -/
theorem InLine.nothing_left (h : InLine g old)
    (hr : g.backing.granted? (g.reserved.stop - old.stop) = none)
    (hg : ∀ n m b, g.backing.grants n m b = true) : g.objects.stop = g.reserved.stop := by
  have ha : g.backing.base.alignment = g.config.alignment := h.sound.alignment_eq
  have := h.stop_le
  rcases Nat.eq_zero_or_pos (g.reserved.stop - old.stop) with hz | hpos
  · have := h.end_eq
    omega
  · have hd : g.backing.base.alignment ∣ g.reserved.stop - old.stop :=
      ha ▸ Nat.dvd_sub h.sound.dvd_stop h.dvd_stop
    have hc := (Backing.granted?_eq_some_iff
      (ha.symm ▸ h.sound.usable.isPowerOfTwo_alignment)).2
      ⟨hg _ _ _, ⟨hpos, hd, Nat.le_of_eq h.base_left.symm⟩, rfl⟩
    cases hr.symm.trans hc

/-- Growth from the second rung on: what was asked for, and then all that is left. -/
theorem growBy_or_growFully_ends (h : InLine g old) {request : Nat}
    (hq : bytes < Word.limit → bytes ≤ request ∨ Word.limit ≤ request + g.config.alignment) :
    Ends (do
      if ← growBy g.guard request then return true
      if ← growFully g.guard then return true
      modify fun g => { g with totals := g.totals.recordFailure }
      return false) g (Grows g bytes) fun _ g' => Stuck g g' := by
  by_cases hz : request = 0
  · subst hz
    refine ends_bind.2 (ends_growBy_zero.2 (.nothing (Alike.refl g) fun hb => ?_))
    have := hq hb
    have := h.sound.alignment_lt
    simp only [setup] at this
    omega
  refine ends_bind.2 ((growBy_ends h hz).imp fun granted g₁ h₁ => ?_)
  cases h₁ with
  | granted hg hs =>
    exact .grown hg fun hb => h.reaches (hq hb) (Nat.le_refl _) hs hg.stop_le
  | refused ha hr =>
    have hin := ha.inLine h
    rw [← ha.guard_eq]
    refine ends_bind.2 ((growFully_ends hin).mono (fun granted g₂ h₂ => ?_) fun _ _ he =>
      he.of_alike ha)
    cases h₂ with
    | granted hg hs =>
      refine (Grows.grown hg fun _ => .inr ?_).of_alike ha
      have := hin.stop_le
      have := hin.end_eq
      omega
    | refused ha' hr' =>
      refine (Grows.refused (ha'.trans ?_) fun hg => ?_).of_alike ha
      · exact ⟨rfl, rfl, rfl, rfl, rfl, rfl, rfl⟩
      · exact hin.nothing_left hr' hg

theorem grow_ends (h : InLine g old) :
    Ends (grow g.guard bytes) g (Grows g bytes) fun _ g' => Stuck g g' := by
  obtain ⟨request, hrq, -, hq⟩ := alignedRequest_eq_ok bytes
    h.sound.usable.isPowerOfTwo_alignment h.sound.alignment_lt
  have hrq : alignedRequest bytes g.backing.alignment = .ok request := h.backing_alignment ▸ hrq
  unfold grow
  refine ends_bind.2 (ends_checkGuard.2 (ends_bind.2 (ends_get.2 ?_)))
  rcases h.leastStep_cases with ⟨step, hstep⟩ | ⟨⟨e, he⟩, hc⟩
  · refine ends_bind.2 ((ends_lift_of_eq hstep).2 (ends_bind.2 ((ends_lift_of_eq hrq).2 ?_)))
    dsimp only
    refine ends_ite.2 ⟨fun hlt => ?_, fun _ => growBy_or_growFully_ends h hq⟩
    refine ends_bind.2 ((growBy_ends h (by omega)).imp fun granted g₁ h₁ => ?_)
    cases h₁ with
    | granted hg hs => exact .grown hg fun hb => h.reaches (hq hb) (Nat.le_of_lt hlt) hs hg.stop_le
    | refused ha hr =>
      rw [← ha.guard_eq]
      have hq' : bytes < Word.limit →
          bytes ≤ request ∨ Word.limit ≤ request + g₁.config.alignment :=
        config_eq_of_setup ha.setup_eq ▸ hq
      exact (growBy_or_growFully_ends (ha.inLine h) hq').mono (fun _ _ hg => hg.of_alike ha)
        fun _ _ he => he.of_alike ha
  · refine ends_bind.2 (ends_lift.2 ⟨fun _ h => ?_, fun _ _ => ⟨hc, .refl g⟩⟩)
    cases he.symm.trans h

/-! ## Release -/

theorem Shrunk.alike (h : Shrunk g region g') (ha : Alike g' g'') : Shrunk g region g'' where
  setup_eq := ha.setup_eq.trans h.setup_eq
  start_eq := h.start_eq
  dvd_stop := h.dvd_stop
  high_eq := by rw [ha.base_eq, h.high_eq]
  cards_eq := ha.cards_eq.trans h.cards_eq
  crossings_eq := ha.crossings_eq.trans h.crossings_eq
  objects_eq := ha.objects_eq.trans h.objects_eq
  lt_stop := h.lt_stop
  top_le := h.top_le
  cursor_eq := ha.cursor_eq.trans h.cursor_eq
  memory_eq := ha.memory_eq.trans h.memory_eq

/-- What a release of so many bytes, rounded down to the alignment, ends in. -/
inductive GivesBack (g : Generation) (bytes : Nat) : Generation → Prop
  | nothing (hb : Rounding.roundDown bytes g.config.alignment = 0) : GivesBack g bytes g
  | shrunk {region : Region} {g' : Generation} (h : Shrunk g region g')
    (hs : region.stop + Rounding.roundDown bytes g.config.alignment = g.objects.stop) :
    GivesBack g bytes g'

theorem Shrunk.of_alike (ha : Alike g g') (h : Shrunk g' region g'') : Shrunk g region g'' where
  toCovers := h.toCovers.of_alike ha
  lt_stop := by rw [← ha.objects_eq]; exact h.lt_stop
  top_le := by rw [← ha.objects_eq]; exact h.top_le
  cursor_eq := by rw [← ha.cursor_eq]; exact h.cursor_eq
  memory_eq := by
    rw [h.memory_eq, ha.base_eq, ha.objects_eq]
    exact Reservation.memory_giveBack ha.memory_eq

/-- The other parts follow a backing that gave memory back, and nothing after that changes them. -/
theorem InLine.release_ends (h : InLine g old) {size : Nat} (hz : size ≠ 0)
    (hd : g.config.alignment ∣ size) (hle : g.objects.top + size ≤ old.stop) {b : Backing}
    (hbase : b.base = { g.backing.base with high := g.backing.base.high - size })
    (hs : ({ g with backing := b } : Generation).setup = g.setup) {x : Action Unit}
    (hx : ∀ g', g'.objects.bottom ≤ g'.objects.stop → Ends x g' (fun _ g'' => Alike g' g'') E) :
    Ends (do settle false; x)
      { g with toHost := g.backing.base.giveBack size g.toHost, backing := b }
      (fun _ g' => ∃ region, Shrunk g region g' ∧ region.stop + size = g.objects.stop) E := by
  have hbt := h.bottom_le_top
  have hstop := h.stop_le
  let region : Region := ⟨old.start, old.stop - size, by omega⟩
  have hr : region.stop = old.stop - size := rfl
  have hd' : g.config.alignment ∣ region.stop := Nat.dvd_sub h.dvd_stop hd
  have hc : Committed { g with toHost := g.backing.base.giveBack size g.toHost, backing := b }
      region := by
    refine ⟨hs ▸ h.sound, h.start_eq, ?_, hd', ?_⟩
    · show region.stop ≤ g.reserved.stop
      omega
    · show b.base.high = old.stop - size
      rw [hbase, ← h.high_eq]
  have hb : g.objects.bottom ≤ g.objects.stop := by
    rw [h.bottom_eq, h.end_eq]; exact old.start_le_stop
  have ht : region.start ≤ g.objects.top ∧ g.objects.top ≤ region.stop := ⟨hbt, by omega⟩
  have hsettle := hc.settle_ends false h.bottom_eq.symm hb ht nofun (E := E) nofun
  refine ends_bind.2 (hsettle.imp fun _ g₁ h₁ => ?_)
  refine (hx g₁ ?_).imp fun _ g₂ h₂ => ⟨region, Shrunk.alike ?_ h₂, ?_⟩
  · rw [h₁.objects_eq]; exact region.start_le_stop
  · obtain ⟨addrs, rfl, hm⟩ := h₁.memory_eq
    rw [Memory.touchAll_nil] at hm
    have hsize : g.objects.stop - region.stop = size := by
      rw [h.end_eq, hr]; omega
    refine ⟨⟨h₁.setup_eq.trans hs, h.bottom_eq.symm, hd', h₁.high_eq, h₁.cards_eq, h₁.crossings_eq,
      h₁.objects_eq⟩, ?_, ht.2, h₁.cursor_eq, ?_⟩
    · rw [h.end_eq]; omega
    · rw [hsize]; exact hm
  · rw [h.end_eq]; omega

theorem giveBack_ends (h : InLine g old) :
    Ends (giveBack g.guard bytes) g (fun _ g' => GivesBack g bytes g') fun e g' =>
      g' = g ∧ old.stop < g.objects.top + Rounding.roundDown bytes g.config.alignment ∧
        e = .releaseBelowTop g.name (Rounding.roundDown bytes g.config.alignment)
          g.objects.top := by
  have hdown : Rounding.down bytes g.backing.alignment =
      .ok (Rounding.roundDown bytes g.config.alignment) := by
    rw [h.backing_alignment]; exact Rounding.down_eq_ok h.sound.usable.isPowerOfTwo_alignment
  have hd : g.config.alignment ∣ Rounding.roundDown bytes g.config.alignment :=
    Rounding.dvd_roundDown h.sound.usable.isPowerOfTwo_alignment
  have hbt := h.bottom_le_top
  unfold giveBack
  refine ends_bind.2 (ends_checkGuard.2 (ends_bind.2 (ends_get.2 ?_)))
  refine ends_bind.2 ((ends_lift_of_eq hdown).2 ?_)
  generalize hsize : Rounding.roundDown bytes g.config.alignment = size at hd ⊢
  dsimp only
  refine ends_ite.2 ⟨fun hz => .nothing (hsize.trans hz), fun hz => ?_⟩
  refine ends_bind.2 (ends_check.2 ⟨fun hc => ?_, fun hc => ⟨rfl, ?_, rfl⟩⟩)
  · have hle : g.objects.top + size ≤ old.stop := by
      rw [h.backing_committed, h.backing_high, Region.size] at hc
      omega
    refine ends_bind.2 ((ends_lift_of_eq (Backing.release_eq_ok hc.1 hz)).2 ?_)
    refine ends_bind.2 (ends_set.2 ?_)
    refine (h.release_ends hz hd hle ?_ ?_ fun _ => record_ends ?_).imp fun _ g' hg => ?_
    · rfl
    · rfl
    · exact fun _ => ⟨rfl, rfl, rfl, rfl, rfl, rfl, rfl⟩
    · obtain ⟨region, hg, hs⟩ := hg
      exact .shrunk hg (hsize ▸ hs)
  · rw [h.backing_committed, h.backing_high, Region.size] at hc
    omega

/-! ## Resize -/

/-- A resize aims at whole alignment units within the bounds that hold what is used. -/
theorem resizeTarget_eq_ok {c : Config} (hc : c.Usable) (hl : c.maxSize < Word.limit)
    (used desiredFree : Nat) :
    ∃ target, resizeTarget c used desiredFree = .ok target ∧ c.minSize ≤ target ∧
      target ≤ c.maxSize ∧ c.alignment ∣ target ∧ (used ≤ c.maxSize → used ≤ target) := by
  have ha := hc.isPowerOfTwo_alignment
  have hmin := hc.minSize_le_maxSize
  refine ⟨_, Rounding.up_eq_ok ha, ?_⟩
  generalize hw : (Word.add? used desiredFree).getD c.maxSize = wanted
  have hused : used ≤ c.maxSize → used ≤ wanted := by
    rw [← hw, Word.add?]
    split
    · exact fun _ => Nat.le_add_right ..
    · exact fun h => h
  have hv : max c.minSize (min wanted c.maxSize) ≤ c.maxSize := by omega
  have := Rounding.le_roundUp ha hc.dvd_maxSize hv hl
  have := Rounding.roundUp_le ha hc.dvd_maxSize hv
  refine ⟨by omega, by omega, Rounding.dvd_roundUp ha, fun hu => ?_⟩
  have := hused hu
  omega

theorem Grows.alike {granted : Bool} (h : Grows g bytes granted g') (ha : Alike g' g'') :
    Grows g bytes granted g'' := by
  cases h with
  | nothing h hb => exact .nothing (h.trans ha) hb
  | grown h hs => exact .grown (h.alike ha) hs
  | refused h hr => exact .refused (h.trans ha) hr

theorem Grows.inLine {granted : Bool} (hg : Grows g bytes granted g') (h : InLine g old) :
    ∃ region, InLine g' region := by
  cases hg with
  | nothing ha hb => exact ⟨old, ha.inLine h⟩
  | grown hg hs => exact ⟨_, hg.inLine h⟩
  | refused ha hr => exact ⟨old, ha.inLine h⟩

/-- What a resize from a capacity to a target ends in. -/
inductive Resizes (g : Generation) (capacity target : Nat) : Generation → Prop
  | kept {g' : Generation} (ht : target = capacity) (h : Alike g g') : Resizes g capacity target g'
  | grown {granted : Bool} {g' : Generation} (ht : capacity < target)
    (h : Grows g (target - capacity) granted g') : Resizes g capacity target g'
  | shrunk {region : Region} {g' : Generation} (ht : target < capacity) (h : Shrunk g region g')
    (hs : region.size = target) : Resizes g capacity target g'

/-- The lines and the event after a resize. -/
theorem resized_ends (h : InLine g old) {text : Nat → String} {e : Nat → Event} :
    Ends (do
      let capacity ← (← get).capacity
      write .trace (text capacity)
      emit (e capacity)) g (fun _ g' => Alike g g') E := by
  refine ends_bind.2 (ends_get.2 (ends_bind.2 ((ends_lift_of_eq h.capacity).2 ?_)))
  exact ends_bind.2 (write_ends.imp fun _ g₁ h₁ => emit_ends.imp fun _ g₂ h₂ => h₁.trans h₂)

/-- A resize can be in vain for two reasons: it would have to grow, and there is no way to, or what
is used is above the maximum, at which a resize always aims then. -/
theorem resize_ends (h : InLine g old) (desiredFree : Nat) :
    Ends (resize desiredFree) g
      (fun _ g' => ∃ target, resizeTarget g.config (g.objects.top - old.start) desiredFree =
        .ok target ∧ Resizes g old.size target g')
      fun e g' => Keeps g g' ∧
        ((¬ g.setup.CanGrow ∧ g.objects.top - old.start ≤ g.config.maxSize ∧ ∃ target,
            resizeTarget g.config (g.objects.top - old.start) desiredFree = .ok target ∧
              old.size < target) ∨
          g.config.maxSize < g.objects.top - old.start ∧
            ∃ size, e = .releaseBelowTop g.name size g.objects.top) := by
  obtain ⟨target, ht, -, hmax, hd, hused⟩ := resizeTarget_eq_ok h.sound.usable h.sound.maxSize_lt
    (g.objects.top - old.start) desiredFree
  have ht : resizeTarget g.config (g.objects.top - old.start) desiredFree = .ok target := ht
  unfold resize
  refine ends_bind.2 (ends_get.2 (ends_bind.2 ((ends_lift_of_eq h.used).2 ?_)))
  refine ends_bind.2 ((ends_lift_of_eq h.capacity).2 (ends_bind.2 ((ends_lift_of_eq ht).2 ?_)))
  refine ends_bind.2 (write_ends.imp fun _ g₁ h₁ => ends_bind.2 (emit_ends.imp fun _ g₂ h₂ => ?_))
  have ha := h₁.trans h₂
  have hin := ha.inLine h
  dsimp only
  refine ends_ite.2 ⟨fun he => ⟨target, ht, .kept he ha⟩, fun hne => ?_⟩
  refine ends_ite.2 ⟨fun hlt => ?_, fun hge => ?_⟩
  · rw [← ha.guard_eq]
    refine ends_bind.2 (ends_discard.2 ((grow_ends hin).mono (fun granted g₃ h₃ => ?_) ?_))
    · obtain ⟨new, hnew⟩ := h₃.inLine hin
      exact (resized_ends hnew).imp fun _ g₄ h₄ =>
        ⟨target, ht, .grown hlt ((h₃.alike h₄).of_alike ha)⟩
    · have hle : g.objects.top - old.start ≤ g.config.maxSize := by
        have hmax : target ≤ g.config.maxSize := hmax
        have := h.top_le
        simp only [Region.size] at hlt
        omega
      exact fun _ _ he => ⟨(he.of_alike ha).keeps,
        .inl ⟨(he.of_alike ha).not_canGrow, hle, target, ht, hlt⟩⟩
  · have hlt : target < old.size := by omega
    have hd : g₂.config.alignment ∣ old.size - target :=
      Nat.dvd_sub hin.dvd_size (config_eq_of_setup ha.setup_eq ▸ hd)
    have hround : Rounding.roundDown (old.size - target) g₂.config.alignment = old.size - target :=
      Rounding.roundDown_of_dvd hin.sound.usable.isPowerOfTwo_alignment hd
    rw [← ha.guard_eq]
    refine ends_bind.2 ((giveBack_ends hin).mono (fun _ g₃ h₃ => ?_) fun _ _ he =>
      ⟨he.1 ▸ ha.keeps, .inr ⟨?_, ?_⟩⟩)
    · cases h₃ with
      | nothing hb =>
        have := hround.symm.trans hb
        omega
      | shrunk hs hsize =>
        refine (resized_ends (hs.inLine hin)).imp fun _ g₄ h₄ =>
          ⟨target, ht, .shrunk hlt ((hs.alike h₄).of_alike ha) ?_⟩
        rw [hround, hin.end_eq] at hsize
        have := hs.start_eq.trans hin.bottom_eq
        simp only [Region.size] at *
        omega
    · have hcut := he.2.1
      rw [hround, ha.objects_eq] at hcut
      by_cases hu : g.config.maxSize < g.objects.top - old.start
      · exact hu
      · have := hused (Nat.le_of_not_lt hu)
        simp only [Region.size] at *
        omega
    · have hname : g₂.name = g.name := congrArg Setup.name ha.setup_eq
      exact ⟨_, by rw [he.2.2, ha.objects_eq, hname]⟩

/-- A generation that can grow and uses no more than the maximum can be resized. -/
theorem InLine.exists_resize (h : InLine g old) (hg : g.setup.CanGrow)
    (hu : g.objects.top - old.start ≤ g.config.maxSize) (desiredFree : Nat) :
    ∃ g', resize desiredFree g = .ok () g' := by
  have hends : Ends (resize desiredFree) g (fun _ _ => True) fun _ _ => False := by
    refine (resize_ends h desiredFree).mono (fun _ _ _ => trivial) fun _ _ he => ?_
    rcases he.2 with hn | hlt
    · exact hn.1 hg
    · exact absurd hlt.1 (Nat.not_lt.2 hu)
  obtain ⟨_, g', hr, -⟩ := hends.exists_ok
  exact ⟨g', hr⟩

/-- A resize that need not grow has a result. -/
theorem InLine.exists_resize_of_le (h : InLine g old)
    (hu : g.objects.top - old.start ≤ g.config.maxSize) {desiredFree target : Nat}
    (ht : resizeTarget g.config (g.objects.top - old.start) desiredFree = .ok target)
    (hle : target ≤ old.size) : ∃ g', resize desiredFree g = .ok () g' := by
  have hends : Ends (resize desiredFree) g (fun _ _ => True) fun _ _ => False := by
    refine (resize_ends h desiredFree).mono (fun _ _ _ => trivial) fun _ _ he => ?_
    rcases he.2 with ⟨-, -, _, ht', hlt⟩ | hlt
    · obtain rfl := Except.ok.inj (ht.symm.trans ht')
      exact Nat.not_lt.2 hle hlt
    · exact absurd hlt.1 (Nat.not_lt.2 hu)
  obtain ⟨_, g', hr, -⟩ := hends.exists_ok
  exact ⟨g', hr⟩

/-- A generation that uses more than the maximum cannot be resized. -/
theorem InLine.resize_error (h : InLine g old)
    (hu : g.config.maxSize < g.objects.top - old.start) (desiredFree : Nat) :
    ∃ size g', resize desiredFree g = .error (.releaseBelowTop g.name size g.objects.top) g' := by
  have htop := h.top_le
  have hends : Ends (resize desiredFree) g (fun _ _ => False) fun e _ =>
      ∃ size, e = .releaseBelowTop g.name size g.objects.top := by
    refine (resize_ends h desiredFree).mono (fun _ g' hr => ?_) fun _ _ he => ?_
    · obtain ⟨target, ht, hr⟩ := hr
      obtain ⟨target', ht', -, hmax, -⟩ := resizeTarget_eq_ok h.sound.usable h.sound.maxSize_lt
        (g.objects.top - old.start) desiredFree
      obtain rfl := Except.ok.inj (ht.symm.trans ht')
      have hmax : target ≤ g.config.maxSize := hmax
      have hsize : old.size = old.stop - old.start := rfl
      cases hr with
      | kept hcap _ => omega
      | grown hlt _ => omega
      | @shrunk region _ hlt hs hregion =>
        have := hs.top_le
        have := hs.start_eq.trans h.bottom_eq
        simp only [Region.size] at hregion
        omega
    · rcases he.2 with hn | hlt
      · exact absurd hn.2.1 (Nat.not_le.2 hu)
      · exact hlt.2
  obtain ⟨_, g', hr, size, rfl⟩ := hends.exists_error
  exact ⟨size, g', hr⟩

end Tenured.Generation
