import Tenured.Proofs.Generation.Capacity

/-!
# The capacity after growth

Where no commit is refused for which there is room, growth commits what `growth` says, also where
nothing is asked for and where what is asked for cannot be rounded up.

* `Generation.InLine.grow_reaches`: the capacity after growth, and whether growth was granted.
  Growth by nothing is granted even if nothing is committed.
* `Generation.Run.grows_exactly`: the same after every run.
* `Generation.InLine.makeRoom_reaches`: growth for a block makes room for it, or uses up the
  reservation.
* `Generation.Run.makes_room`: so the block is handed out next if and only if the reservation has
  room for it.
-/

namespace Tenured

/-- Where nothing is asked for, only the least step is. -/
theorem Backing.ask_step {v : Backing} {step : Nat} (ha : v.base.alignment.isPowerOfTwo)
    (hg : ∀ n m b, v.grants n m b = true) (hs : v.base.alignment ∣ step) :
    (v.ask (if 0 < step then [step] else [])).1 =
      if Generation.growth step 0 v.base.left = 0 then none
      else some (Generation.growth step 0 v.base.left) := by
  have hns : ∀ n ∈ if 0 < step then [step] else [], 0 < n ∧ v.base.alignment ∣ n := by
    simp only [List.mem_ite_nil_right, List.mem_singleton]
    rintro n ⟨hpos, rfl⟩
    exact ⟨hpos, hs⟩
  rw [ask_fst ha hg hns]
  generalize v.base.left = left
  unfold Generation.growth
  by_cases hfit : 0 < step ∧ step ≤ left
  · rw [if_pos hfit.1, if_pos hfit, List.find?_cons_of_pos (by simpa using hfit.2),
      if_neg (Nat.ne_of_gt hfit.1)]
  · rw [if_neg hfit, Nat.zero_min, if_pos rfl]
    split
    · rename_i hpos
      exact List.find?_cons_of_neg (by simpa using fun h => hfit ⟨hpos, h⟩)
    · rfl

namespace Generation

open Tenured.Action
open Object (wordSize minWords)

variable {g g' g₀ : Generation} {old region : Region} {bytes words step request left : Nat}
  {granted : Bool} {ops : List Operation} {out : List Object}

/-! ## How much growth commits -/

/-- Nothing is committed if nothing is left, or if nothing is asked for and there is no least step
that fits. -/
theorem growth_eq_zero_iff :
    growth step request left = 0 ↔ left = 0 ∨ request = 0 ∧ (step = 0 ∨ left < step) := by
  unfold growth
  split <;> omega

theorem growth_le (step request left : Nat) : growth step request left ≤ left := by
  unfold growth
  split <;> omega

/-! ## One growth -/

/-- Growth by nothing asks for the least step, and is granted whatever becomes of that. -/
theorem grow_zero_climbs (h : InLine g old) (hs : g.leastStep = .ok step) :
    Ends (grow g.guard 0) g (fun granted g' => granted = true ∧ ∃ stepped,
      Climbs g (if 0 < step then [step] else []) stepped g') fun _ g' => Stuck g g' := by
  have hq : alignedRequest 0 g.backing.alignment = .ok 0 := by
    rw [h.backing_alignment]
    exact alignedRequest_of_dvd h.sound.usable.isPowerOfTwo_alignment (Nat.dvd_zero _) (by decide)
  unfold grow
  refine ends_bind.2 (ends_checkGuard.2 (ends_bind.2 (ends_get.2 ?_)))
  refine ends_bind.2 ((ends_lift_of_eq hs).2 (ends_bind.2 ((ends_lift_of_eq hq).2 ?_)))
  dsimp only
  refine ends_ite.2 ⟨fun hlt => ?_, fun hge => ?_⟩
  · rw [if_pos hlt]
    refine ends_bind.2 ((growBy_climbs h (Nat.ne_of_gt hlt)).imp fun stepped g₁ h₁ => ?_)
    cases stepped with
    | true => exact ⟨rfl, true, h₁⟩
    | false =>
      rw [← h₁.alike.guard_eq]
      exact ends_bind.2 (ends_growBy_zero.2 ⟨rfl, false, h₁⟩)
  · rw [if_neg hge]
    exact ends_bind.2 (ends_growBy_zero.2 ⟨rfl, false, .refused rfl g.journal g.events⟩)

/-- Growth leaves the top alone and commits what `growth` says. It is granted if something was left,
and in any case if nothing was asked for. -/
theorem InLine.grow_reaches (h : InLine g old) (ho : g.setup.Own) (hg : g.setup.CanGrow)
    (hlt : bytes < Word.limit) (hs : g.leastStep = .ok step)
    (hq : alignedRequest bytes g.config.alignment = .ok request) :
    ∃ granted g', grow g.guard bytes g = .ok granted g' ∧
      (granted = true ↔ bytes = 0 ∨ old.stop < g.reserved.stop) ∧ Raised g g' ∧
      ∃ region, InLine g' region ∧ region.start = old.start ∧
        region.size = old.size + growth step request (g.reserved.stop - old.stop) := by
  have ha := h.sound.usable.isPowerOfTwo_alignment
  have hd := h.dvd_leastStep hs
  by_cases hb : bytes = 0
  · subst hb
    obtain rfl : 0 = request :=
      Except.ok.inj ((alignedRequest_of_dvd ha (Nat.dvd_zero _) (by decide)).symm.trans hq)
    have hbase : g.backing.base.alignment = g.config.alignment := h.backing_alignment
    have hask := Backing.ask_step (v := g.backing) (hbase ▸ ha) ho.grants_eq (hbase ▸ hd)
    rw [h.base_left] at hask
    obtain ⟨_, g', hrun, rfl, stepped, hclimb⟩ := ((grow_zero_climbs h hs).mono (fun _ _ h => h)
      fun _ _ he => he.not_canGrow hg).exists_ok
    exact ⟨true, g', hrun, ⟨fun _ => .inl rfl, fun _ => rfl⟩, (hclimb.reaches h hask).2⟩
  · obtain ⟨_, _, _, hs', hq', hl, granted, g₁, hclimb, hrun⟩ := h.exists_grow hg hb hlt
    obtain rfl := Except.ok.inj (hs.symm.trans hs')
    obtain rfl := Except.ok.inj (hq.symm.trans hq')
    obtain rfl := Except.ok.inj (h.backing_left.symm.trans hl)
    have hr := alignedRequest_ne_zero ha h.sound.alignment_lt hb hlt hq
    obtain ⟨_, hq', hdr, -⟩ := alignedRequest_eq_ok bytes ha h.sound.alignment_lt
    obtain rfl := Except.ok.inj (hq.symm.trans hq')
    obtain ⟨hgranted, hraised, region, hin, hregion⟩ :=
      hclimb.reaches h (h.ask_eq ho hs hdr (Nat.pos_of_ne_zero hr))
    have hal := alike_countFailure granted g₁
    refine ⟨granted, _, hrun, ?_, hraised.trans hal.raised, region, hal.inLine hin, hregion⟩
    have := h.stop_le
    rw [hgranted, ne_eq, growth_eq_zero_iff]
    omega

/-- The end and the backing after growth by so many bytes. -/
theorem InLine.backing_grown (h : InLine g old) (h' : InLine g' region) (hr : Raised g g') {n : Nat}
    (hstart : region.start = old.start) (hsize : region.size = old.size + n) :
    g'.objects.stop = g.objects.stop + n ∧
      g'.backing.committed = g.backing.committed + n ∧
      g'.backing.left = .ok (g.reserved.stop - old.stop - n) := by
  have hstop : region.stop = old.stop + n := by
    have := old.start_le_stop
    have := region.start_le_stop
    simp only [Region.size] at hsize
    omega
  refine ⟨?_, ?_, ?_⟩
  · rw [h'.end_eq, h.end_eq, hstop]
  · rw [h'.backing_committed, h.backing_committed, hsize]
  · rw [h'.backing_left, hr.reserved_eq, hstop, Nat.sub_sub]

/-! ## Growth for a block -/

/-- A block that fits needs no growth. -/
theorem makeRoom_of_fits (h : Within g) (hw : 0 < words) (hl : ¬ g.Lacks words) :
    makeRoom words g = .ok true g := by
  have hf : ¬ g.free / wordSize < words := by
    have := h.top_le
    rw [Nat.not_lt, Nat.le_div_iff_mul_le (by decide)]
    simp only [Lacks, free, LinearSpace.free] at *
    omega
  simp only [makeRoom, run_bind, check_eq_ok_iff.2 hw]
  show (if g.free / wordSize < words then _ else _ : Action Bool) g = _
  rw [if_neg hf]
  rfl

/-- Growth for a block is granted if the block fits already or something is left to commit. After it
the block fits, or the reservation is used up. -/
theorem InLine.makeRoom_reaches (h : InLine g old) (ho : g.setup.Own) (hw : 0 < words)
    (hrun : makeRoom words g = .ok granted g') :
    Raised g g' ∧ (granted = true ↔ ¬ g.Lacks words ∨ g.objects.stop < g.reserved.stop) ∧
      (g'.Lacks words → g'.objects.stop = g.reserved.stop) := by
  by_cases hl : g.Lacks words
  · rw [makeRoom_of_lacks h.within hw hl] at hrun
    have hpos : 0 < Word.mulSat words wordSize :=
      Word.mulSat_pos (Nat.mul_pos hw (by decide))
    have hlt : Word.mulSat words wordSize < Word.limit := Word.mulSat_lt ..
    have hg := (grow_ends h).of_ok hrun
    have hraised := hg.raised
    obtain ⟨region, hin⟩ := hraised.changes.inLine h
    refine ⟨hraised, ?_, fun hl' => (hg.reaches ho.grants_eq hpos hlt).resolve_left fun hle => ?_⟩
    · cases hg with
      | nothing _ hz => exact absurd (hz hlt) (Nat.ne_of_gt hpos)
      | grown hg _ => exact ⟨fun _ => .inr (Nat.lt_of_lt_of_le hg.stop_lt hg.stop_le), fun _ => rfl⟩
      | refused _ hr =>
        have hstop := hr ho.grants_eq
        exact ⟨nofun, fun h => absurd hl (h.resolve_right (Nat.not_lt.2 (Nat.le_of_eq hstop.symm)))⟩
    · -- a product above the largest word asks for more than the end can be raised by
      have htop := hraised.top_eq
      have hle' := h.within.top_le
      have hend := hin.within.stop_lt
      have hpage := hin.within.page_dvd_stop
      simp only [Lacks, Word.mulSat, Word.limit, Word.max] at *
      omega
  · rw [makeRoom_of_fits h.within hw hl] at hrun
    cases hrun
    exact ⟨.refl g, ⟨fun _ => .inl hl, fun _ => rfl⟩, fun hl' => absurd hl' hl⟩

section MakeRoom

variable (h : InLine g old) (hw : minWords ≤ words)
include h hw

theorem InLine.exists_makeRoom (hg : g.setup.CanGrow) :
    ∃ granted g', makeRoom words g = .ok granted g' := by
  have hpos : words ≠ 0 := Nat.ne_of_gt (Nat.lt_of_lt_of_le (by decide) hw)
  obtain ⟨granted, g', hrun, -⟩ := ((makeRoom_ends h).mono (fun _ _ h => h) fun _ _ he =>
    he.elim (fun he => he.not_canGrow hg) fun he => hpos he.2).exists_ok
  exact ⟨granted, g', hrun⟩

theorem InLine.exists_handOut : ∃ r g', handOut words g = .ok r g' ∧ HandsOut g words r g' :=
  ((handOut_ends h.within).mono (fun _ _ h => h) fun _ _ he => Nat.not_le_of_lt he.2 hw).exists_ok

variable (ho : g.setup.Own) (hrun : makeRoom words g = .ok granted g')
include ho hrun

/-- Growth makes room for a block that the reservation has room for. -/
theorem InLine.handOut_of_room (hroom : words * wordSize ≤ g.reserved.stop - g.objects.top) :
    granted = true ∧ ∃ g'', handOut words g' = .ok (some g.objects.top) g'' := by
  obtain ⟨hraised, hgranted, hfull⟩ :=
    h.makeRoom_reaches ho (Nat.lt_of_lt_of_le (by decide) hw) hrun
  obtain ⟨region, hin⟩ := hraised.changes.inLine h
  have htop := hraised.top_eq
  have hle : g.objects.top ≤ g.reserved.stop := Nat.le_trans h.within.top_le h.within.stop_le
  have hfits : ¬ g'.Lacks words := fun hl => by
    have := hfull hl
    simp only [Lacks] at hl
    omega
  obtain ⟨r, g'', hout, hhands⟩ := hin.exists_handOut hw
  obtain ⟨rfl, -⟩ := hhands.of_le (Nat.not_lt.1 hfits)
  refine ⟨hgranted.2 ?_, g'', htop ▸ hout⟩
  rw [Lacks]
  omega

/-- For a block that the reservation has no room for, everything is committed in vain. -/
theorem InLine.handOut_of_no_room (hroom : g.reserved.stop - g.objects.top < words * wordSize) :
    (granted = true ↔ g.objects.stop < g.reserved.stop) ∧
      g'.backing.committedPart = .ok g.reserved ∧ handOut words g' = .ok none g' ∧
      ∀ again g'', makeRoom words g' = .ok again g'' → again = false := by
  have hpos : 0 < words := Nat.lt_of_lt_of_le (by decide) hw
  obtain ⟨hraised, hgranted, hfull⟩ := h.makeRoom_reaches ho hpos hrun
  obtain ⟨region, hin⟩ := hraised.changes.inLine h
  have htop := hraised.top_eq
  have hle := h.within.stop_le
  have hle' := hraised.stop_le_reserved h
  have hlacks : g.Lacks words ∧ g'.Lacks words := by
    simp only [Lacks]
    omega
  have hstop := hfull hlacks.2
  refine ⟨hgranted.trans ⟨fun h => h.resolve_left fun hf => hf hlacks.1, .inr⟩, ?_, ?_,
    fun again g'' hagain => ?_⟩
  · exact hraised.committedPart_of_stop h hstop
  · obtain ⟨r, g'', hout, hhands⟩ := hin.exists_handOut hw
    obtain ⟨rfl, rfl⟩ := hhands.of_lt hlacks.2
    exact hout
  · obtain ⟨-, hagain, -⟩ := hin.makeRoom_reaches (hraised.changes.setup_eq ▸ ho) hpos hagain
    refine Bool.eq_false_iff.2 fun h => ?_
    rcases hagain.1 h with hf | hlt
    · exact hf hlacks.2
    · rw [hraised.reserved_eq, hstop] at hlt
      exact Nat.lt_irrefl _ hlt

end MakeRoom

/-! ## After a run -/

section New

variable {sys : AddressSpace} {s : Setting} {c : Config} {name : String} {level id : Nat}
  (hc : (create sys s c name level id).outcome = .result g₀) (hr : Run g₀ ops out g)
include hc hr

/-- After every run from a new generation, growth has a result, and commits the least step, what was
asked for, or all that is left. Growth for something is granted exactly if something is committed
then, which is no less than was asked for or all that was left. Growth for nothing is always
granted, although it commits the least step only where that fits. -/
theorem Run.grows_exactly (hk : c.touchCommitted = true → sys.InLowerHalf)
    (hn : c.perNode = true → c.alignment * c.nodeCount s.machine < Word.limit)
    (hb : bytes < Word.limit) :
    ∃ left step request granted g', g.backing.left = .ok left ∧
      step = max (Rounding.roundUp c.leastGrowth c.alignment)
        (if c.perNode then c.alignment * c.nodeCount s.machine else 0) ∧
      alignedRequest bytes c.alignment = .ok request ∧
      grow g.guard bytes g = .ok granted g' ∧
      g'.backing.committed = g.backing.committed + growth step request left ∧
      g'.backing.left = .ok (left - growth step request left) ∧
      (bytes ≠ 0 → (granted = true ↔ g.backing.committed < g'.backing.committed)) ∧
      (bytes = 0 → granted = true ∧
        (g.backing.committed < g'.backing.committed ↔ 0 < step ∧ step ≤ left)) ∧
      (granted = true → g.backing.committed + bytes ≤ g'.backing.committed ∨
        g'.backing.left = .ok 0) := by
  obtain ⟨⟨old, hin⟩, hs, ho, hconfig⟩ := hr.inLine_new hc
  have hg : g.setup.CanGrow := hs ▸ create_canGrow hc hk hn
  obtain ⟨step, hstep, hleast⟩ : ∃ step, step = max (Rounding.roundUp c.leastGrowth c.alignment)
      (if c.perNode then c.alignment * c.nodeCount s.machine else 0) ∧ g.leastStep = .ok step :=
    ⟨_, rfl, (hr.leastStep_eq_ok_iff hc).2 ⟨hn, rfl⟩⟩
  have ha := hin.sound.usable.isPowerOfTwo_alignment
  obtain ⟨request, hq, -⟩ := alignedRequest_eq_ok bytes ha hin.sound.alignment_lt
  obtain ⟨granted, g', hrun, hgranted, hraised, region, hin', hstart, hsize⟩ :=
    hin.grow_reaches ho hg hb hleast hq
  obtain ⟨hend, hcommitted, hleft⟩ := hin.backing_grown hin' hraised hstart hsize
  have hreaches := ((grow_ends hin).of_ok hrun).reaches ho.grants_eq
  have hgrowth := growth_le step request (g.reserved.stop - old.stop)
  have hnone : growth step request (g.reserved.stop - old.stop) = 0 ↔ _ := growth_eq_zero_iff
  refine ⟨_, step, request, granted, g', hin.backing_left, hstep, hconfig ▸ hq, hrun, hcommitted,
    hleft, ?_⟩
  rw [hleft, hcommitted, hgranted]
  refine ⟨fun hz => ?_, fun hz => ?_, fun hgr => ?_⟩
  · have := alignedRequest_ne_zero ha hin.sound.alignment_lt hz hb hq
    omega
  · obtain rfl : 0 = request := Except.ok.inj
      ((alignedRequest_of_dvd ha (Nat.dvd_zero _) (by decide)).symm.trans (hz ▸ hq))
    exact ⟨.inl hz, by omega⟩
  · rcases Nat.eq_zero_or_pos bytes with hz | hpos
    · exact .inl (by omega)
    · rw [hend, hin.end_eq] at hreaches
      rcases hreaches hpos hb with hle | hfull
      · exact .inl (by omega)
      · exact .inr (congrArg _ (by omega))

end New

/-- The largest word is asked for. It is rounded down, and the second of two pages is committed. -/
theorem Run.grows_exactly_small : ∃ g₀ g',
    (create (.ofBase 65536) ⟨⟨0, 1, 1⟩, {}, {}⟩
      { smallConfig with touchCommitted := true, perNode := true } "small" 1 0).outcome =
      .result g₀ ∧
    grow g₀.guard Word.max g₀ = .ok true g' ∧ g'.backing.committed = 8192 := by
  have hnew : ∃ g₀, (create (.ofBase 65536) ⟨⟨0, 1, 1⟩, {}, {}⟩
      { smallConfig with touchCommitted := true, perNode := true } "small" 1 0).outcome =
      .result g₀ ∧ g₀.backing.left = .ok 4096 ∧ g₀.backing.committed = 4096 := ⟨_, rfl, rfl, rfl⟩
  obtain ⟨g₀, hc, hleft, hcommitted⟩ := hnew
  obtain ⟨left, step, request, granted, g', hl, hs, hq, hrun, hsize, -, hgranted, -⟩ :=
    Run.grows_exactly hc .start (fun _ => AddressSpace.inLowerHalf_ofBase (by decide))
      (fun _ => by decide) (show Word.max < Word.limit by decide)
  obtain rfl := Except.ok.inj (hleft.symm.trans hl)
  obtain rfl : step = 4096 := hs
  obtain rfl : 18446744073709547520 = request := Except.ok.inj
    ((show alignedRequest Word.max 4096 = .ok 18446744073709547520 from rfl).symm.trans hq)
  have hsize : g'.backing.committed = 8192 := hsize.trans (by rw [hcommitted]; rfl)
  obtain rfl : granted = true := (hgranted (by decide)).2 (by rw [hsize, hcommitted]; decide)
  exact ⟨g₀, g', hc, hrun, hsize⟩

/-- Growth by nothing, where there is no least step, is granted and commits nothing. -/
theorem Run.grows_by_nothing : ∃ g₀ g', small.outcome = .result g₀ ∧
    grow g₀.guard 0 g₀ = .ok true g' ∧ g'.backing.committed = g₀.backing.committed :=
  ⟨_, _, rfl, rfl, rfl⟩

section New

variable {sys : AddressSpace} {s : Setting} {c : Config} {name : String} {level id : Nat}
  (hc : (create sys s c name level id).outcome = .result g₀) (hr : Run g₀ ops out g)
include hc hr

/-- After every run from a new generation, growth for a block is followed by the block if the
reservation has room for it above the top, and it is granted then. If there is no room, growth still
commits all that is left, and is granted if something was. The block is not handed out after it, and
growth for the block is not granted again. -/
theorem Run.makes_room (hw : minWords ≤ words) :
    ((c.touchCommitted = true → sys.InLowerHalf) →
      (c.perNode = true → c.alignment * c.nodeCount s.machine < Word.limit) →
      ∃ granted g', makeRoom words g = .ok granted g') ∧
    ∀ granted g', makeRoom words g = .ok granted g' →
      g'.objects.top = g.objects.top ∧
      (words * wordSize ≤ g.reserved.stop - g.objects.top → granted = true ∧
        ∃ g'', handOut words g' = .ok (some g.objects.top) g'') ∧
      (g.reserved.stop - g.objects.top < words * wordSize →
        (granted = true ↔ g.objects.stop < g.reserved.stop) ∧
        g'.backing.committedPart = .ok g.reserved ∧ handOut words g' = .ok none g' ∧
        ∀ again g'', makeRoom words g' = .ok again g'' → again = false) := by
  obtain ⟨⟨old, hin⟩, hs, ho, -⟩ := hr.inLine_new hc
  refine ⟨fun hk hn => hin.exists_makeRoom hw (hs ▸ create_canGrow hc hk hn), fun granted g' hrun =>
    ⟨?_, hin.handOut_of_room hw ho hrun, hin.handOut_of_no_room hw ho hrun⟩⟩
  exact (hin.makeRoom_reaches ho (Nat.lt_of_lt_of_le (by decide) hw) hrun).1.top_eq

end New

/-- The second of two pages makes room for a block of two pages. -/
theorem Run.makes_room_small : ∃ g₀ g' g'', small.outcome = .result g₀ ∧
    makeRoom 1024 g₀ = .ok true g' ∧ handOut 1024 g' = .ok (some 65536) g'' := by
  have hnew : ∃ g₀, small.outcome = .result g₀ ∧ g₀.objects.top = 65536 ∧
      g₀.reserved.stop = 73728 := ⟨_, rfl, rfl, rfl⟩
  obtain ⟨g₀, hc, htop, hstop⟩ := hnew
  obtain ⟨hexists, hresult⟩ := Run.makes_room hc .start (show minWords ≤ 1024 by decide)
  obtain ⟨granted, g', hrun⟩ := hexists nofun nofun
  obtain ⟨-, hroom, -⟩ := hresult _ _ hrun
  obtain ⟨rfl, g'', hout⟩ := hroom (by rw [htop, hstop]; decide)
  exact ⟨g₀, g', g'', hc, hrun, htop ▸ hout⟩

/-- Growth for a block that is longer than two pages is granted, and the block is not handed out
after it. -/
theorem Run.makes_room_in_vain : ∃ g₀ g', small.outcome = .result g₀ ∧
    makeRoom 1025 g₀ = .ok true g' ∧ handOut 1025 g' = .ok none g' := by
  have hnew : ∃ g₀, small.outcome = .result g₀ ∧ g₀.objects.top = 65536 ∧
      g₀.objects.stop = 69632 ∧ g₀.reserved.stop = 73728 := ⟨_, rfl, rfl, rfl, rfl⟩
  obtain ⟨g₀, hc, htop, hend, hstop⟩ := hnew
  obtain ⟨region, hnew⟩ := create_new hc
  have hw : minWords ≤ 1025 := by decide
  obtain ⟨granted, g', hrun⟩ :=
    hnew.toInLine.exists_makeRoom hw (hnew.canGrow_of_false rfl rfl)
  obtain ⟨hgranted, -, hout, -⟩ :=
    hnew.toInLine.handOut_of_no_room hw hnew.own hrun (by rw [htop, hstop]; decide)
  obtain rfl : granted = true := hgranted.2 (by rw [hend, hstop]; decide)
  exact ⟨g₀, g', hc, hrun, hout⟩

end Generation

end Tenured
