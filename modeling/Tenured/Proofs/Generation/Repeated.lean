import Tenured.Proofs.Generation.Capacity

/-!
# A resize done again

A resize leaves alone what its target depends on: what is used, and the configuration. So when it is
done again, it has the same target, and it need not grow any more.

* `Generation.InLine.resize_above`: from its target or above, a resize comes to its target, and at
  its target it changes nothing but the journal and the events.
* `Generation.Run.resize_settles`: after every run, the second resize in a row changes something
  only if the first one took the least step past the target. The third one changes nothing.
-/

namespace Tenured

namespace Generation

variable {g g₁ g₀ : Generation} {old region : Region} {target desiredFree : Nat}

/-! ## The target of the next resize -/

/-- What a resize leaves alone gives the next one the same target. -/
theorem resizeTarget_of_setup
    (ht : resizeTarget g.config (g.objects.top - old.start) desiredFree = .ok target)
    (hs : g₁.setup = g.setup) (htop : g₁.objects.top = g.objects.top)
    (hstart : region.start = old.start) :
    resizeTarget g₁.config (g₁.objects.top - region.start) desiredFree = .ok target := by
  rw [config_eq_of_setup hs, htop, hstart]
  exact ht

section Again

variable (h : InLine g old) (ho : g.setup.Own)
  (ht : resizeTarget g.config (g.objects.top - old.start) desiredFree = .ok target)
include h ho ht

/-- From its target or above, a resize comes to its target. At its target, it only tells of it. -/
theorem InLine.resize_above (hle : target ≤ old.size) :
    ∃ g' region, resize desiredFree g = .ok () g' ∧ InLine g' region ∧ g'.setup = g.setup ∧
      g'.objects.top = g.objects.top ∧ region.start = old.start ∧ region.size = target ∧
      (old.size = target → ∃ journal events, g' = { g with journal, events }) := by
  obtain ⟨g', hrun⟩ := h.exists_resize_of_le (h.used_le ho) ht hle
  obtain ⟨region, hin, hs, htop, hstart, hkept, hshrunk, -⟩ := h.resize_reaches ho ht hrun
  exact ⟨g', region, hrun, hin, hs, htop, hstart, hshrunk hle, fun heq => hkept heq.symm⟩

/-- From its target or above, a resize done twice comes to its target at once and stays there. -/
theorem InLine.resize_above_twice (hle : target ≤ old.size) :
    ∃ g₁ g₂, resize desiredFree g = .ok () g₁ ∧ resize desiredFree g₁ = .ok () g₂ ∧
      g₁.capacity = .ok target ∧ g₁.objects.top = g.objects.top ∧
      (old.size = target → ∃ journal events, g₁ = { g with journal, events }) ∧
      ∃ journal events, g₂ = { g₁ with journal, events } := by
  obtain ⟨g₁, region, hrun, hin, hs, htop, hstart, hsize, hkept⟩ := h.resize_above ho ht hle
  obtain ⟨g₂, -, hrun', -, -, -, -, -, hkept'⟩ := hin.resize_above (hs ▸ ho)
    (resizeTarget_of_setup ht hs htop hstart) (Nat.le_of_eq hsize.symm)
  exact ⟨g₁, g₂, hrun, hrun', hsize ▸ hin.capacity, htop, hkept, hkept' hsize⟩

end Again

/-! ## After a run -/

/-- After every run from a new generation, a resize is at its target, unless the least step took it
past that. Where it is at its target, the next resize in a row changes nothing but the journal and
the events. Otherwise the next one shrinks the generation to the target, and the third one changes
nothing. -/
theorem Run.resize_settles {sys : AddressSpace} {s : Setting} {c : Config} {name : String}
    {level id : Nat} {ops : List Operation} {out : List Object}
    (hc : (create sys s c name level id).outcome = .result g₀) (hr : Run g₀ ops out g)
    (h₁ : resize desiredFree g = .ok () g₁) :
    ∃ used capacity target step g₂ g₃, g.used = .ok used ∧ g.capacity = .ok capacity ∧
      target = Rounding.roundUp (max c.minSize (min
        (if used + desiredFree < Word.limit then used + desiredFree else c.maxSize) c.maxSize))
        c.alignment ∧
      step = max (Rounding.roundUp c.leastGrowth c.alignment)
        (if c.perNode then c.alignment * c.nodeCount s.machine else 0) ∧
      resize desiredFree g₁ = .ok () g₂ ∧ resize desiredFree g₂ = .ok () g₃ ∧
      g₂.capacity = .ok target ∧ g₂.objects.top = g.objects.top ∧
      (∃ journal events, g₃ = { g₂ with journal, events }) ∧
      (capacity < target ∧ target - capacity < step ∧ capacity + step ≤ c.maxSize →
        g₁.capacity = .ok (capacity + step) ∧ target < capacity + step) ∧
      (¬ (capacity < target ∧ target - capacity < step ∧ capacity + step ≤ c.maxSize) →
        g₁.capacity = .ok target ∧ ∃ journal events, g₂ = { g₁ with journal, events }) := by
  obtain ⟨⟨old, hin⟩, -, ho, hconfig⟩ := hr.inLine_new hc
  obtain ⟨target, ht, -⟩ := resizeTarget_eq_ok hin.sound.usable hin.sound.maxSize_lt
    (g.objects.top - old.start) desiredFree
  have hvalue := ht.symm.trans (resizeTarget_eq hin.sound.usable _ _)
  rw [show g.setup.config = c from hconfig] at hvalue
  obtain ⟨step, hstep⟩ : ∃ step, step = max (Rounding.roundUp c.leastGrowth c.alignment)
      (if c.perNode then c.alignment * c.nodeCount s.machine else 0) := ⟨_, rfl⟩
  obtain ⟨region, hin₁, hs₁, htop₁, hstart₁, hkept, hshrunk, hgrown⟩ :=
    hin.resize_reaches ho ht h₁
  have hgrown : old.size < target → region.size =
      if target - old.size < step ∧ old.size + step ≤ c.maxSize then old.size + step
      else target := fun hgt => by
    obtain ⟨_, hleast, hsize⟩ := hgrown hgt
    obtain ⟨-, rfl⟩ := (hr.leastStep_eq_ok_iff hc).1 hleast
    rw [hsize, hstep, hconfig]
  have hge : target ≤ region.size := by
    rcases Nat.lt_or_ge old.size target with hlt | hge
    · rw [hgrown hlt]
      split <;> omega
    · exact Nat.le_of_eq (hshrunk hge).symm
  obtain ⟨g₂, g₃, h₂, h₃, hcapacity, htop₂, hsame, hsame'⟩ := hin₁.resize_above_twice (hs₁ ▸ ho)
    (resizeTarget_of_setup ht hs₁ htop₁ hstart₁) hge
  refine ⟨_, _, target, step, g₂, g₃, hin.used, hin.capacity, Except.ok.inj hvalue, hstep, h₂, h₃,
    hcapacity, htop₂.trans htop₁, hsame', fun hover => ?_, fun hover => ?_⟩
  · have hsize : region.size = old.size + step := (hgrown hover.1).trans (if_pos hover.2)
    exact ⟨hsize ▸ hin₁.capacity, by omega⟩
  · have hsize : region.size = target := by
      rcases Nat.lt_or_ge old.size target with hlt | hge
      · exact (hgrown hlt).trans (if_neg fun h => hover ⟨hlt, h⟩)
      · exact hshrunk hge
    exact ⟨hsize ▸ hin₁.capacity, hsame hsize⟩

/-- The second of two pages is the target, and there is no least step. -/
theorem Run.resize_settles_small : ∃ g₀ g₁ g₂, small.outcome = .result g₀ ∧
    resize 5000 g₀ = .ok () g₁ ∧ resize 5000 g₁ = .ok () g₂ ∧ g₁.capacity = .ok 8192 ∧
    ∃ journal events, g₂ = { g₁ with journal, events } := by
  have hnew : ∃ g₀, small.outcome = .result g₀ ∧ g₀.used = .ok 0 ∧ g₀.capacity = .ok 4096 :=
    ⟨_, rfl, rfl, rfl⟩
  obtain ⟨g₀, hc, hused, hcapacity⟩ := hnew
  obtain ⟨region, hnew⟩ := create_new hc
  obtain ⟨g₁, h₁⟩ := hnew.toInLine.exists_resize (hnew.canGrow_of_false rfl rfl)
    (hnew.toInLine.used_le hnew.own) 5000
  obtain ⟨used, capacity, target, step, g₂, g₃, hu, hcap, ht, hs, h₂, -, -, -, -, -, hsettled⟩ :=
    Run.resize_settles hc .start h₁
  obtain rfl := Except.ok.inj (hused.symm.trans hu)
  obtain rfl := Except.ok.inj (hcapacity.symm.trans hcap)
  obtain rfl : target = 8192 := ht
  obtain rfl : step = 0 := hs
  obtain ⟨hcap₁, hsame⟩ := hsettled (by decide)
  exact ⟨g₀, g₁, g₂, hc, h₁, h₂, hcap₁, hsame⟩

/-- The second of four pages is the target, and the least step is two pages. The first resize goes
past the target, and the second one shrinks the generation to it. -/
theorem Run.resize_unsettled : ∃ g₀ g₁ g₂,
    (create (.ofBase 65536) ⟨⟨0, 1, 1⟩, {}, {}⟩
      { smallConfig with maxSize := 16384, leastGrowth := 8192 } "small" 1 0).outcome =
      .result g₀ ∧
    resize 5000 g₀ = .ok () g₁ ∧ resize 5000 g₁ = .ok () g₂ ∧ g₁.capacity = .ok 12288 ∧
    g₂.capacity = .ok 8192 := by
  have hnew : ∃ g₀, (create (.ofBase 65536) ⟨⟨0, 1, 1⟩, {}, {}⟩
      { smallConfig with maxSize := 16384, leastGrowth := 8192 } "small" 1 0).outcome =
      .result g₀ ∧ g₀.leastStep = .ok 8192 ∧ g₀.capacity = .ok 4096 ∧ g₀.config.maxSize = 16384 ∧
      resizeTarget g₀.config (g₀.objects.top - g₀.objects.bottom) 5000 = .ok 8192 :=
    ⟨_, rfl, rfl, rfl, rfl, rfl⟩
  obtain ⟨g₀, hc, hleast, hcapacity, hmax, ht⟩ := hnew
  obtain ⟨old, hnew⟩ := create_new hc
  have hin := hnew.toInLine
  rw [hin.bottom_eq] at ht
  have hold : old.size = 4096 := Except.ok.inj (hin.capacity.symm.trans hcapacity)
  obtain ⟨g₁, h₁⟩ :=
    hin.exists_resize (hnew.canGrow_of_false rfl rfl) (hin.used_le hnew.own) 5000
  obtain ⟨region, hin₁, hs, htop, hstart, -, -, hgrown⟩ := hin.resize_reaches hnew.own ht h₁
  obtain ⟨_, hleast', hsize⟩ := hgrown (by omega)
  obtain rfl := Except.ok.inj (hleast.symm.trans hleast')
  have hsize : region.size = 12288 := by rw [hsize, hold, hmax]; rfl
  obtain ⟨g₂, _, h₂, -, hcap₂, -⟩ := hin₁.resize_above_twice (hs ▸ hnew.own)
    (resizeTarget_of_setup ht hs htop hstart) (by omega)
  exact ⟨g₀, g₁, g₂, hc, h₁, h₂, hsize ▸ hin₁.capacity, hcap₂⟩

end Generation

end Tenured
