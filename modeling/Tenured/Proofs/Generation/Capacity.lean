import Tenured.Proofs.Generation.Ladder

/-!
# The capacity after a resize

Where no commit is refused for which there is room, the first rung of growth that fits is granted.
So growth commits what `growth` says (`Backing.ask_rungs`), and a resize reaches its target exactly,
with one exception: the least step is taken where it is larger than what is missing and the maximum
leaves room for it.

* `Generation.resize_climbs`: a resize leaves everything alone, or grows by its rungs.
* `Generation.Run.resize_exact`: the capacity after a resize, after every run.
-/

namespace Tenured

/-- How much growth commits of what is left: the least step, where it is larger than the request and
there is room for it, and otherwise the request, or all that is left if that is less. -/
def Generation.growth (step request left : Nat) : Nat :=
  if request < step ∧ step ≤ left then step else min request left

namespace Backing

variable {v : Backing} {n step request : Nat}

/-- Where no commit is refused for which there is room, whole alignment units are granted exactly if
they are left. -/
theorem commit_fst (ha : v.base.alignment.isPowerOfTwo) (hg : ∀ n m b, v.grants n m b = true)
    (hn : 0 < n) (hd : v.base.alignment ∣ n) : (v.commit n).1 = decide (n ≤ v.base.left) := by
  by_cases hle : n ≤ v.base.left
  · have hs := (granted?_eq_some_iff ha).2 ⟨hg _ _ _, ⟨hn, hd, hle⟩, rfl⟩
    rw [commit, hs, decide_eq_true hle]
  · rw [decide_eq_false hle, commit]
    cases hs : v.granted? n with
    | some base => exact absurd ((granted?_eq_some_iff ha).1 hs).2.1.2.2 hle
    | none => rfl

theorem ask_of_commit_true (h : (v.commit n).1 = true) (ns : List Nat) :
    (v.ask (n :: ns)).1 = some n := by
  rcases hc : v.commit n with ⟨b, v'⟩
  rw [hc] at h
  obtain rfl : b = true := h
  rw [ask_cons_of_true hc]

/-- Where no commit is refused for which there is room, the first of several commits that there is
room for is granted. -/
theorem ask_fst (ha : v.base.alignment.isPowerOfTwo) (hg : ∀ n m b, v.grants n m b = true)
    {ns : List Nat} (hns : ∀ n ∈ ns, 0 < n ∧ v.base.alignment ∣ n) :
    (v.ask ns).1 = ns.find? (· ≤ v.base.left) := by
  induction ns generalizing v with
  | nil => rfl
  | cons n ns ih =>
    obtain ⟨⟨hn, hd⟩, hns⟩ := List.forall_mem_cons.1 hns
    have hfirst := commit_fst ha hg hn hd
    by_cases hle : n ≤ v.base.left
    · rw [List.find?_cons_of_pos (by simpa using hle)]
      exact ask_of_commit_true (hfirst.trans (decide_eq_true hle)) ns
    · rw [List.find?_cons_of_neg (by simpa using hle)]
      rcases hc : v.commit n with ⟨b, v'⟩
      rw [hc, decide_eq_false hle] at hfirst
      obtain rfl : b = false := hfirst
      rw [ask_cons_of_false hc]
      obtain rfl := commit_eq_false hc
      exact ih (v := { v with commits := v.commits + 1, refusals := v.refusals + 1 }) ha hg hns

/-- So much is granted by the rungs of growth, unless that is nothing. -/
theorem ask_rungs (ha : v.base.alignment.isPowerOfTwo) (hg : ∀ n m b, v.grants n m b = true)
    (hs : v.base.alignment ∣ step) (hr : v.base.alignment ∣ request) (hpos : 0 < request)
    (hl : v.base.alignment ∣ v.base.left) :
    (v.ask (Generation.rungs step request v.base.left)).1 =
      if Generation.growth step request v.base.left = 0 then none
      else some (Generation.growth step request v.base.left) := by
  have hns : ∀ n ∈ Generation.rungs step request v.base.left, 0 < n ∧ v.base.alignment ∣ n := by
    simp only [Generation.rungs, List.mem_append, List.mem_cons, List.mem_ite_nil_right,
      List.mem_ite_nil_left, List.not_mem_nil, or_false]
    rintro n (⟨hlt, rfl⟩ | rfl | ⟨hz, rfl⟩)
    · exact ⟨Nat.zero_lt_of_lt hlt, hs⟩
    · exact ⟨hpos, hr⟩
    · exact ⟨Nat.pos_of_ne_zero hz, hl⟩
  rw [ask_fst ha hg hns]
  generalize v.base.left = left
  unfold Generation.rungs Generation.growth
  by_cases hfit : request < step ∧ step ≤ left
  · rw [if_pos hfit.1, if_pos hfit, List.singleton_append,
      List.find?_cons_of_pos (by simpa using hfit.2), if_neg (by omega)]
  · have hfirst : (if request < step then [step] else []).find? (· ≤ left) = none := by
      split
      · rename_i hlt
        exact List.find?_cons_of_neg (by simpa using fun h => hfit ⟨hlt, h⟩)
      · rfl
    rw [List.find?_append, hfirst, Option.none_or, if_neg hfit]
    by_cases hle : request ≤ left
    · rw [List.find?_cons_of_pos (by simpa using hle), Nat.min_eq_left hle, if_neg (by omega)]
    · rw [List.find?_cons_of_neg (by simpa using hle), Nat.min_eq_right (by omega)]
      split
      · rfl
      · exact List.find?_cons_of_pos (by simp)

end Backing

namespace Generation

open Tenured.Action

variable {g g' g₀ : Generation} {old : Region} {target step : Nat}

/-! ## What a resize does -/

theorem ends_trivial {α : Type} {x : Action α} :
    Ends x g (fun _ _ => True) fun _ _ => True :=
  ends_eq.imp fun _ _ _ => trivial

theorem Climbs.inLine {ns : List Nat} {granted : Bool} (hc : Climbs g ns granted g')
    (h : InLine g old) : ∃ region, InLine g' region := by
  cases granted with
  | false => exact ⟨old, hc.alike.inLine h⟩
  | true =>
    cases hc with
    | granted _ hg =>
      obtain ⟨region, hgrown, -⟩ := hg.exists_grown
      exact ⟨region, hgrown.inLine h⟩

theorem alike_countFailure (granted : Bool) (g : Generation) :
    Alike g (countFailure granted g) := by
  cases granted with
  | false => exact ⟨rfl, rfl, rfl, rfl, rfl, rfl, rfl⟩
  | true => exact Alike.refl g

/-- Lines and events before growth make no difference to it: they are those of refused commits of
which there are none. -/
theorem grow_climbs_logged (h : InLine g old) {bytes request left : Nat}
    (hq : alignedRequest bytes g.backing.alignment = .ok request) (hr : request ≠ 0)
    (hl : g.backing.left = .ok left) (journal : Journal) (events : EventLog) :
    Ends (grow g.guard bytes) { g with journal, events } (fun granted g' => ∃ step g₁,
      g.leastStep = .ok step ∧ Climbs g (rungs step request left) granted g₁ ∧
        g' = countFailure granted g₁) fun _ _ => True := by
  have hlogged : Climbs g [] false { g with journal, events } := .refused rfl journal events
  cases hs : g.leastStep with
  | ok step =>
    refine (grow_climbs (hlogged.alike.inLine h) hs hq hr hl).mono (fun granted _ h => ?_)
      fun _ _ _ => trivial
    obtain ⟨g₁, h₁, rfl⟩ := h
    exact ⟨step, g₁, rfl, hlogged.append_of_false h₁, rfl⟩
  | error e =>
    unfold grow
    rw [← hlogged.alike.guard_eq]
    refine ends_bind.2 (ends_checkGuard.2 (ends_bind.2 (ends_get.2 (ends_bind.2 ?_))))
    exact ends_lift.2 ⟨fun _ hok => (nomatch hs.symm.trans hok), fun _ _ => trivial⟩

/-- A resize at its target only tells of it. Below its target, it grows by what is missing. -/
theorem resize_climbs (h : InLine g old) {desiredFree request left : Nat}
    (ht : resizeTarget g.config (g.objects.top - old.start) desiredFree = .ok target)
    (hq : alignedRequest (target - old.size) g.backing.alignment = .ok request)
    (hr : old.size < target → request ≠ 0) (hl : g.backing.left = .ok left) :
    Ends (resize desiredFree) g
      (fun _ g' => (target = old.size → ∃ journal events, g' = { g with journal, events }) ∧
        (old.size < target → ∃ step granted g₁, g.leastStep = .ok step ∧
          Climbs g (rungs step request left) granted g₁ ∧ Alike (countFailure granted g₁) g'))
      fun _ _ => True := by
  unfold resize
  refine ends_bind.2 (ends_get.2 (ends_bind.2 ((ends_lift_of_eq h.used).2 ?_)))
  refine ends_bind.2 ((ends_lift_of_eq h.capacity).2 (ends_bind.2 ((ends_lift_of_eq ht).2 ?_)))
  refine ends_bind.2 (ends_modify.2 (ends_bind.2 (ends_modify.2 ?_)))
  dsimp only
  refine ends_ite.2 ⟨fun he => ⟨fun _ => ⟨_, _, rfl⟩, fun hlt => by omega⟩, fun hne => ?_⟩
  refine ends_ite.2 ⟨fun hlt => ?_, fun hge => ?_⟩
  · refine ends_bind.2 (ends_discard.2 ((grow_climbs_logged h hq (hr hlt) hl _ _).imp ?_))
    rintro granted _ ⟨step, g₁, hs, hclimb, rfl⟩
    obtain ⟨region, hin⟩ := hclimb.inLine h
    exact (resized_ends ((alike_countFailure granted g₁).inLine hin)).imp fun _ g₃ h₃ =>
      ⟨fun he => by omega, fun _ => ⟨step, granted, g₁, hs, hclimb, h₃⟩⟩
  · exact ends_trivial.imp fun _ _ _ => ⟨fun he => absurd he hne, fun hlt => absurd hlt hge⟩

/-! ## Where no commit is refused -/

/-- A request of whole alignment units is left as it is. -/
theorem alignedRequest_of_dvd {a n : Nat} (ha : a.isPowerOfTwo) (hd : a ∣ n)
    (hn : n < Word.limit) : alignedRequest n a = .ok n := by
  have hle := Rounding.le_roundUp ha hd (Nat.le_refl n) hn
  have hge := Rounding.roundUp_le ha hd (Nat.le_refl n)
  have hup : Rounding.roundUp n a = n := Nat.le_antisymm hge hle
  simp only [alignedRequest, Rounding.up_eq_ok ha, Rounding.down_eq_ok ha, hup,
    Rounding.roundDown_of_dvd ha hd, bind, Except.bind]
  split <;> rfl

theorem InLine.dvd_leastStep (h : InLine g old) (hs : g.leastStep = .ok step) :
    g.config.alignment ∣ step := by
  obtain ⟨-, rfl⟩ := h.leastStep_eq_ok_iff.1 hs
  have hup : g.config.alignment ∣ Rounding.roundUp g.config.leastGrowth g.config.alignment :=
    Rounding.dvd_roundUp h.sound.usable.isPowerOfTwo_alignment
  have hnodes : g.config.alignment ∣
      if g.config.perNode then g.config.alignment * g.nodes else 0 := by
    split
    · exact Nat.dvd_mul_right ..
    · exact Nat.dvd_zero _
  rcases Nat.le_total (Rounding.roundUp g.config.leastGrowth g.config.alignment)
    (if g.config.perNode then g.config.alignment * g.nodes else 0) with hle | hle
  · rwa [Nat.max_eq_right hle]
  · rwa [Nat.max_eq_left hle]

/-- What is left and what is committed come to the maximum. -/
theorem InLine.left_add_size (h : InLine g old) (ho : g.setup.Own) :
    g.reserved.stop - old.stop + old.size = g.config.maxSize := by
  have hsize : g.reserved.stop - g.reserved.start = g.config.maxSize := ho.size_eq
  have := h.start_eq
  have := h.stop_le
  have := old.start_le_stop
  rw [Region.size]
  omega

/-- Growth is granted what `growth` says, unless nothing is left. -/
theorem InLine.ask_eq (h : InLine g old) (ho : g.setup.Own) (hs : g.leastStep = .ok step)
    {request : Nat} (hd : g.config.alignment ∣ request)
    (hpos : 0 < request) :
    (g.backing.ask (rungs step request (g.reserved.stop - old.stop))).1 =
      if growth step request (g.reserved.stop - old.stop) = 0 then none
      else some (growth step request (g.reserved.stop - old.stop)) := by
  have ha := h.sound.usable.isPowerOfTwo_alignment
  have hbase : g.backing.base.alignment = g.config.alignment := h.backing_alignment
  have hleft : g.config.alignment ∣ g.backing.base.left :=
    h.base_left ▸ Nat.dvd_sub h.sound.dvd_stop h.dvd_stop
  rw [← h.base_left]
  exact Backing.ask_rungs (hbase ▸ ha) ho.grants_eq (hbase ▸ h.dvd_leastStep hs) (hbase ▸ hd)
    hpos (hbase ▸ hleft)

/-- Growth follows the commit that is granted, by exactly so many bytes. -/
theorem Climbs.reaches {ns : List Nat} {n : Nat} {granted : Bool} (hc : Climbs g ns granted g')
    (h : InLine g old) (hask : (g.backing.ask ns).1 = if n = 0 then none else some n) :
    (granted = true ↔ n ≠ 0) ∧ Raised g g' ∧ ∃ region, InLine g' region ∧
      region.start = old.start ∧ region.size = old.size + n := by
  cases granted with
  | false =>
    have ha := hc.alike
    have hn : n = 0 := by
      cases hc with
      | refused h' =>
        rw [h'] at hask
        split at hask
        · assumption
        · cases hask
    exact ⟨⟨nofun, fun h => absurd hn h⟩, ha.raised, old, ha.inLine h, rfl, by rw [hn]; rfl⟩
  | true =>
    cases hc with
    | granted h' hby =>
      rw [h'] at hask
      split at hask
      · cases hask
      rename_i hn
      obtain rfl := Option.some.inj hask
      obtain ⟨region, hg, hs⟩ := hby.exists_grown
      have hstart : region.start = old.start := hg.start_eq.trans h.bottom_eq
      have hle := old.start_le_stop
      refine ⟨⟨fun _ => hn, fun _ => rfl⟩, hg.raised, region, hg.inLine h, hstart, ?_⟩
      rw [Region.size, hs, hstart, h.end_eq, Region.size]
      omega

/-- A resize leaves the top alone, and brings the capacity to its target. The least step is taken
instead where it is larger than what is missing and fits below the maximum. -/
theorem InLine.resize_reaches (h : InLine g old) (ho : g.setup.Own) {desiredFree : Nat}
    (ht : resizeTarget g.config (g.objects.top - old.start) desiredFree = .ok target)
    (hrun : resize desiredFree g = .ok () g') :
    ∃ region, InLine g' region ∧ g'.setup = g.setup ∧ g'.objects.top = g.objects.top ∧
      region.start = old.start ∧
      (target = old.size → ∃ journal events, g' = { g with journal, events }) ∧
      (target ≤ old.size → region.size = target) ∧
      (old.size < target → ∃ step, g.leastStep = .ok step ∧ region.size =
        if target - old.size < step ∧ old.size + step ≤ g.config.maxSize then old.size + step
        else target) := by
  have ha := h.sound.usable.isPowerOfTwo_alignment
  obtain ⟨_, ht', -, hmax, hd, -⟩ := resizeTarget_eq_ok h.sound.usable h.sound.maxSize_lt
    (g.objects.top - old.start) desiredFree
  obtain rfl := Except.ok.inj (ht.symm.trans ht')
  have hmax : target ≤ g.config.maxSize := hmax
  have hlimit : g.config.maxSize < Word.limit := h.sound.maxSize_lt
  have hdr : g.config.alignment ∣ target - old.size := Nat.dvd_sub hd h.dvd_size
  have hq : alignedRequest (target - old.size) g.backing.alignment = .ok (target - old.size) := by
    rw [h.backing_alignment]
    exact alignedRequest_of_dvd ha hdr (by omega)
  obtain ⟨hkept, hgrown⟩ := (resize_climbs h ht hq (fun hlt => by omega) h.backing_left).of_ok hrun
  obtain ⟨_, ht', hr⟩ := (resize_ends h desiredFree).of_ok hrun
  obtain rfl := Except.ok.inj (ht.symm.trans ht')
  cases hr with
  | kept he hal =>
    exact ⟨old, hal.inLine h, hal.setup_eq, by rw [hal.objects_eq], rfl, hkept,
      fun _ => he.symm, fun hlt => by omega⟩
  | shrunk hlt hsh hregion =>
    exact ⟨_, hsh.inLine h, hsh.setup_eq, by rw [hsh.objects_eq], hsh.start_eq.trans h.bottom_eq,
      fun he => by omega, fun _ => hregion, fun hgt => by omega⟩
  | grown hlt _ =>
    obtain ⟨step, granted, g₁, hs, hclimb, hal⟩ := hgrown hlt
    obtain ⟨-, hraised, region, hin₁, hstart, hsize⟩ :=
      hclimb.reaches h (h.ask_eq ho hs hdr (Nat.sub_pos_of_lt hlt))
    have hal := (alike_countFailure granted g₁).trans hal
    refine ⟨region, hal.inLine hin₁, hal.setup_eq.trans hraised.changes.setup_eq, ?_, hstart,
      fun he => by omega, fun hgt => by omega, fun _ => ⟨step, hs, ?_⟩⟩
    · rw [hal.objects_eq, hraised.top_eq]
    · have hroom := h.left_add_size ho
      have hfits : step ≤ g.reserved.stop - old.stop ↔ old.size + step ≤ g.config.maxSize := by
        omega
      simp only [hsize, growth, hfits]
      split <;> omega

/-- What is used fits below the maximum. -/
theorem InLine.used_le (h : InLine g old) (ho : g.setup.Own) :
    g.objects.top - old.start ≤ g.config.maxSize := by
  have := h.left_add_size ho
  have := h.top_le
  rw [Region.size] at *
  omega

/-- The target of a resize, as a formula. -/
theorem resizeTarget_eq {c : Config} (hc : c.Usable) (used desiredFree : Nat) :
    resizeTarget c used desiredFree = .ok (Rounding.roundUp (max c.minSize (min
      (if used + desiredFree < Word.limit then used + desiredFree else c.maxSize) c.maxSize))
      c.alignment) := by
  rw [resizeTarget, Rounding.up_eq_ok hc.isPowerOfTwo_alignment, Word.add?]
  split <;> rfl

/-! ## After a run -/

/-- After every run from a new generation, the least step follows from the configuration, unless the
units for the nodes come to no word. -/
theorem Run.leastStep_eq_ok_iff {sys : AddressSpace} {s : Setting} {c : Config} {name : String}
    {level id : Nat} {ops : List Operation} {out : List Object}
    (hc : (create sys s c name level id).outcome = .result g₀) (hr : Run g₀ ops out g) :
    g.leastStep = .ok step ↔
      (c.perNode = true → c.alignment * c.nodeCount s.machine < Word.limit) ∧
        step = max (Rounding.roundUp c.leastGrowth c.alignment)
          (if c.perNode then c.alignment * c.nodeCount s.machine else 0) := by
  obtain ⟨base, heap, committed, _, -, -, -, hf, hasm⟩ := create_assembled hc
  obtain ⟨old, hin⟩ := hr.inLine (hasm.inLine hf)
  have hs := hr.setup_eq (hasm.inLine hf)
  have hconfig : g.config = c := (config_eq_of_setup hs).trans hasm.config_eq
  have hnodes : g.nodes = if c.perNode then c.nodeCount s.machine else 1 :=
    (congrArg Setup.nodes hs).trans hasm.nodes_eq
  rw [hin.leastStep_eq_ok_iff, hconfig, hnodes]
  split <;> rename_i hp <;> simp [hp]

/-- After every run from a new generation, a resize has a result, and what the capacity is then
follows from what is used, what is to be free, and the configuration. Everything that is touched on
the way can be, unless large pages are smaller than four bytes. -/
theorem Run.resize_exact {sys : AddressSpace} {s : Setting} {c : Config} {name : String}
    {level id : Nat} {ops : List Operation} {out : List Object}
    (hc : (create sys s c name level id).outcome = .result g₀)
    (hk : c.touchCommitted = true → sys.InLowerHalf)
    (hn : c.perNode = true → c.alignment * c.nodeCount s.machine < Word.limit)
    (hr : Run g₀ ops out g) (desiredFree : Nat) :
    ∃ used capacity target step capacity' g',
      g.used = .ok used ∧ g.capacity = .ok capacity ∧
      target = Rounding.roundUp (max c.minSize (min
        (if used + desiredFree < Word.limit then used + desiredFree else c.maxSize) c.maxSize))
        c.alignment ∧
      step = max (Rounding.roundUp c.leastGrowth c.alignment)
        (if c.perNode then c.alignment * c.nodeCount s.machine else 0) ∧
      resize desiredFree g = .ok () g' ∧ g'.capacity = .ok capacity' ∧
      (target = capacity → ∃ journal events, g' = { g with journal, events }) ∧
      (target < capacity → capacity' = target) ∧
      (capacity < target → capacity' =
        if target - capacity < step ∧ capacity + step ≤ c.maxSize then capacity + step
        else target) ∧
      g'.objects.top = g.objects.top ∧ g'.objects.top ≤ g'.objects.stop ∧
      (c.minSize ≤ capacity' ∧ capacity' ≤ c.maxSize) ∧
      ((c.largePages = true → 4 ≤ c.largePageSize) →
        TouchesIn g.reserved s.host.memory g'.memory) := by
  obtain ⟨region₀, hnew⟩ := create_new hc
  obtain ⟨old, hin⟩ := hr.inLine hnew.toInLine
  have hs := hr.setup_eq hnew.toInLine
  have ho : g.setup.Own := hs ▸ hnew.own
  have hg : g.setup.CanGrow := hs ▸ create_canGrow hc hk hn
  have hconfig : g.config = c := (config_eq_of_setup hs).trans hnew.config_eq
  obtain ⟨target, ht, hmin, hmax, -⟩ := resizeTarget_eq_ok hin.sound.usable hin.sound.maxSize_lt
    (g.objects.top - old.start) desiredFree
  have hvalue := ht.symm.trans (resizeTarget_eq hin.sound.usable _ _)
  obtain ⟨step, hstep, hleast⟩ : ∃ step, step = max (Rounding.roundUp c.leastGrowth c.alignment)
      (if c.perNode then c.alignment * c.nodeCount s.machine else 0) ∧ g.leastStep = .ok step :=
    ⟨_, rfl, (hr.leastStep_eq_ok_iff hc).2 ⟨hn, rfl⟩⟩
  obtain ⟨g', hrun⟩ := hin.exists_resize hg (hin.used_le ho) desiredFree
  obtain ⟨region, hin', -, htop, hstart, hkept, hshrunk, hgrown⟩ := hin.resize_reaches ho ht hrun
  have hmin : c.minSize ≤ target := hconfig ▸ hmin
  have hmax : target ≤ c.maxSize := hconfig ▸ hmax
  rw [show g.setup.config = c from hconfig] at hvalue
  rw [hconfig] at hgrown
  have hgrown : old.size < target → region.size =
      if target - old.size < step ∧ old.size + step ≤ c.maxSize then old.size + step
      else target := fun hgt => by
    obtain ⟨_, hleast', hsize⟩ := hgrown hgt
    obtain rfl := Except.ok.inj (hleast.symm.trans hleast')
    exact hsize
  have hle : g'.objects.top ≤ g'.objects.stop := hin'.end_eq ▸ hin'.top_le
  refine ⟨_, _, target, step, region.size, g', hin.used, hin.capacity, Except.ok.inj hvalue, hstep,
    hrun, hin'.capacity, hkept, fun hlt => hshrunk (Nat.le_of_lt hlt), hgrown, htop, hle, ?_,
    fun hl => hr.touchesIn_of_goes hc hl goes_resize hrun⟩
  rcases Nat.lt_or_ge old.size target with hlt | hge
  · rw [hgrown hlt]
    split <;> omega
  · rw [hshrunk hge]
    exact ⟨hmin, hmax⟩

/-- One page of four is committed, and a second one would be the target. The least step is two
pages. -/
theorem Run.resize_exact_small : ∃ g₀ g',
    (create (.ofBase 65536) ⟨⟨0, 1, 1⟩, {}, {}⟩
      { smallConfig with
        maxSize := 16384, leastGrowth := 8192, touchCommitted := true, perNode := true }
      "small" 1 0).outcome = .result g₀ ∧
    resize 5000 g₀ = .ok () g' ∧ g'.capacity = .ok 12288 ∧
    TouchesIn g₀.reserved {} g'.memory := by
  have hnew : ∃ g₀, (create (.ofBase 65536) ⟨⟨0, 1, 1⟩, {}, {}⟩
      { smallConfig with
        maxSize := 16384, leastGrowth := 8192, touchCommitted := true, perNode := true }
      "small" 1 0).outcome = .result g₀ ∧ g₀.used = .ok 0 ∧ g₀.capacity = .ok 4096 :=
    ⟨_, rfl, rfl, rfl⟩
  obtain ⟨g₀, hc, hused, hcapacity⟩ := hnew
  obtain ⟨used, capacity, target, step, capacity', g', hu, hcap, ht, hs, hrun, hcap', -, -, hgrown,
    -, -, -, htouches⟩ := Run.resize_exact hc (fun _ => AddressSpace.inLowerHalf_ofBase (by decide))
      (fun _ => by decide) .start 5000
  obtain rfl := Except.ok.inj (hused.symm.trans hu)
  obtain rfl := Except.ok.inj (hcapacity.symm.trans hcap)
  obtain rfl : target = 8192 := ht
  obtain rfl : step = 8192 := hs
  obtain rfl : capacity' = 12288 := hgrown (by decide)
  exact ⟨g₀, g', hc, hrun, hcap', htouches nofun⟩

end Generation

end Tenured
