import Tenured.Proofs.Generation.Build

/-!
# Operations, and runs of them

`Operation` lists what can be asked of a generation, each with any arguments, and `Operation.run`
does it and says which blocks it handed out. `Run` is what becomes of a generation by operations
that end without a fault, with stores into the objects in between.

* `Operation.run_ends`: an operation changes the parts of a generation as `Changed` says, and only a
  release can bring the capacity below the minimum. Where it ends with a fault, it has not written
  below the top.
* `Run.inLine`: the parts are in line after every run.
-/

namespace Tenured.Generation

open Tenured.Action
open Object (wordSize minWords)

/-- What can be asked of a generation. -/
inductive Operation
  | allocate (words : Nat)
  | handOut (words : Nat)
  | growAndHandOut (words : Nat)
  | makeRoom (words : Nat)
  | touchAhead (addr words : Nat)
  | resize (desiredFree : Nat)
  | grow (bytes : Nat)
  | growBy (bytes : Nat)
  | growFully
  | giveBack (bytes : Nat)
deriving DecidableEq

/-- The block of so many words at an address, if there is one. -/
def blockAt (words : Nat) (addr : Option Nat) : List Object :=
  addr.toList.map fun addr => ⟨addr, words * wordSize⟩

/-- Does an operation, and answers with the blocks that it handed out. -/
def Operation.run : Operation → Action (List Object)
  | allocate words => return blockAt words (← Generation.allocate words).toOption
  | handOut words => return blockAt words (← Generation.handOut words)
  | growAndHandOut words => return blockAt words (← Generation.growAndHandOut words)
  | makeRoom words => do discard <| Generation.makeRoom words; return []
  | touchAhead addr words => do Generation.touchAhead addr words; return []
  | resize desiredFree => do Generation.resize desiredFree; return []
  | grow bytes => do discard <| Generation.grow (← get).guard bytes; return []
  | growBy bytes => do discard <| Generation.growBy (← get).guard bytes; return []
  | growFully => do discard <| Generation.growFully (← get).guard; return []
  | giveBack bytes => do Generation.giveBack (← get).guard bytes; return []

variable {g g' g'' : Generation} {old region : Region} {words bytes : Nat} {out : List Object}

/-! ## What an operation changes -/

theorem HandsOut.changes {r : Option Nat} (h : HandsOut g words r g') :
    Changes g (blockAt words r) g' := by
  cases h with
  | none _ => exact .refl
  | some hc ht => exact .tail (.single (.carved hc)) (.touchedAhead ht)

theorem HandsOut.end_eq {r : Option Nat} (h : HandsOut g words r g') :
    g'.objects.stop = g.objects.stop := by
  cases h with
  | none _ => rfl
  | some hc ht => rw [ht.objects_eq, hc.objects_eq]

/-- Blocks were handed out, and the end of the space did not move down. -/
def Extends (g : Generation) (out : List Object) (g' : Generation) : Prop :=
  Changes g out g' ∧ g.objects.stop ≤ g'.objects.stop

theorem Raised.extends (h : Raised g g') : Extends g [] g' :=
  ⟨h.changes, h.stop_le⟩

theorem Extends.handsOut {r : Option Nat} (h : Extends g out g') (ho : HandsOut g' words r g'') :
    Extends g (out ++ blockAt words r) g'' :=
  ⟨h.1.trans ho.changes, ho.end_eq ▸ h.2⟩

theorem Asked.raised {granted : Bool} (h : Asked g bytes granted g') : Raised g g' := by
  cases h with
  | granted hg _ => exact hg.raised
  | refused ha _ => exact ha.raised

theorem Allocates.extends {r : Except Error Nat} (h : Allocates g words r g') :
    Extends g (blockAt words r.toOption) g' := by
  cases h with
  | ok hr ho => exact hr.extends.handsOut ho
  | full hr _ _ => exact hr.extends

theorem MakesRoom.raised {granted : Bool} (h : MakesRoom g words granted g') : Raised g g' := by
  cases h with
  | fits _ => exact .refl g
  | grows hg => exact hg.raised

theorem GivesBack.changes (h : GivesBack g bytes g') : Changes g [] g' := by
  cases h with
  | nothing _ => exact .refl
  | shrunk hs _ => exact .single (.shrunk hs)

/-- What an operation ends in. Only a release can bring the capacity below the minimum. -/
structure Does (op : Operation) (g : Generation) (out : List Object) (g' : Generation) : Prop where
  changes : Changes g out g'
  capacity : (∀ n, op ≠ .giveBack n) → g.objects.stop ≤ g'.objects.stop ∨
    g.config.minSize ≤ g'.objects.stop - g'.objects.bottom

theorem Extends.does {op : Operation} (h : Extends g out g') : Does op g out g' :=
  ⟨h.1, fun _ => .inl h.2⟩

theorem Resizes.does {op : Operation} {capacity target : Nat} (ht : g.config.minSize ≤ target)
    (h : Resizes g capacity target g') : Does op g [] g' := by
  cases h with
  | kept _ ha => exact ha.raised.extends.does
  | grown _ hg => exact hg.raised.extends.does
  | shrunk _ hs hsize =>
    refine ⟨.single (.shrunk hs), fun _ => .inr ?_⟩
    rw [← hsize] at ht
    rw [hs.objects_eq]
    exact ht

theorem Operation.run_ends (op : Operation) (h : InLine g old) :
    Ends op.run g (Does op g) fun _ g' => Keeps g g' := by
  cases op with
  | allocate words =>
    refine ends_bind.2 ?_
    by_cases hw : minWords ≤ words
    · exact (allocate_ends hw h).mono (fun r g₁ h₁ => h₁.extends.does) fun _ _ he => he.keeps
    · refine (ends_allocate_of_lt (Nat.lt_of_not_le hw)).imp fun r g₁ h₁ => ?_
      obtain ⟨rfl, e, rfl⟩ := h₁
      exact (Raised.refl g₁).extends.does
  | handOut words =>
    refine ends_bind.2 ((handOut_ends h.within).mono (fun r g₁ h₁ => ?_) fun _ _ he => ?_)
    · exact ((Raised.refl g).extends.handsOut h₁).does
    · exact he.1 ▸ .refl g
  | growAndHandOut words =>
    refine ends_bind.2 ((growAndHandOut_ends h).mono (fun r g₁ h₁ => ?_) fun _ _ he => he.1)
    obtain ⟨granted, mid, hg, ho⟩ := h₁
    exact (hg.raised.extends.handsOut ho).does
  | makeRoom words =>
    refine ends_bind.2 (ends_discard.2 ((makeRoom_ends h).mono (fun r g₁ h₁ => ?_) ?_))
    · exact h₁.raised.extends.does
    · rintro _ _ (he | he)
      · exact he.keeps
      · exact he.1 ▸ .refl g
  | touchAhead addr words =>
    refine ends_bind.2 ((touchAhead_ends h.within).mono (fun r g₁ h₁ => ?_) fun _ _ he => ?_)
    · exact ⟨.single (.touchedAhead h₁), fun _ => .inl (Nat.le_of_eq (by rw [h₁.objects_eq]))⟩
    · exact he.1 ▸ .refl g
  | resize desiredFree =>
    refine ends_bind.2 ((resize_ends h desiredFree).mono (fun r g₁ h₁ => ?_) fun _ _ he => he.1)
    obtain ⟨target, ht, hr⟩ := h₁
    obtain ⟨target', ht', hmin, -⟩ := resizeTarget_eq_ok h.sound.usable h.sound.maxSize_lt
      (g.objects.top - old.start) desiredFree
    cases ht.symm.trans ht'
    exact hr.does hmin
  | grow bytes =>
    refine ends_bind.2 (ends_get.2 (ends_bind.2 (ends_discard.2 ?_)))
    exact (grow_ends h).mono (fun r g₁ h₁ => h₁.raised.extends.does) fun _ _ he => he.keeps
  | growBy bytes =>
    refine ends_bind.2 (ends_get.2 (ends_bind.2 (ends_discard.2 ?_)))
    by_cases hb : bytes = 0
    · subst hb
      exact ends_growBy_zero.2 (Raised.refl g).extends.does
    · exact (growBy_ends h hb).mono (fun r g₁ h₁ => h₁.raised.extends.does) fun _ _ he => he.keeps
  | growFully =>
    refine ends_bind.2 (ends_get.2 (ends_bind.2 (ends_discard.2 ?_)))
    exact (growFully_ends h).mono (fun r g₁ h₁ => h₁.raised.extends.does) fun _ _ he => he.keeps
  | giveBack bytes =>
    refine ends_bind.2 (ends_get.2 (ends_bind.2 ?_))
    refine (giveBack_ends h).mono (fun r g₁ h₁ => ?_) fun _ _ he => he.1 ▸ .refl g
    exact ⟨h₁.changes, fun hn => absurd rfl (hn bytes)⟩

/-! ## Runs -/

/-- What becomes of a new generation by operations that end without a fault, in order, and the
blocks that they hand out. In between, words are stored into the objects, after their headers. -/
inductive Run (g₀ : Generation) : List Operation → List Object → Generation → Prop
  | start : Run g₀ [] [] g₀
  | call {ops : List Operation} {op : Operation} {out out' : List Object} {g g' : Generation}
    (h : Run g₀ ops out g) (hr : op.run g = .ok out' g') : Run g₀ (ops ++ [op]) (out ++ out') g'
  | store {ops : List Operation} {out : List Object} {g : Generation} {o : Object}
    {addr : Nat} (h : Run g₀ ops out g) (ho : o ∈ out) (hlow : o.addr + wordSize ≤ addr)
    (hhigh : addr + wordSize ≤ o.addr + o.size) (w : Nat) :
    Run g₀ ops out { g with memory := g.memory.store addr w }

variable {g₀ : Generation} {ops : List Operation}

theorem InLine.bottom_eq_of_setup {new : Region} (h : InLine g old) (h' : InLine g' new)
    (hs : g'.setup = g.setup) : g'.objects.bottom = g.objects.bottom := by
  rw [h.bottom_eq, h.start_eq, h'.bottom_eq, h'.start_eq, reserved_eq_of_setup hs]

/-- A store changes no part but the memory. -/
theorem Stays.store (g : Generation) (addr w : Nat) :
    Stays g { g with memory := g.memory.store addr w } :=
  ⟨rfl, rfl, rfl, rfl, rfl, rfl⟩

theorem Within.store (h : Within g) (addr w : Nat) :
    Within { g with memory := g.memory.store addr w } :=
  (Stays.store g addr w).within h ⟨h.bottom_le_top, h.top_le, h.dvd_top⟩
    ⟨h.bottom_le_cursor, h.cursor_le⟩

theorem InLine.store (h : InLine g old) (addr w : Nat) :
    InLine { g with memory := g.memory.store addr w } old :=
  (Stays.store g addr w).inLine h (h.within.store addr w)

/-- The parts are in line after every run. -/
theorem Run.inLine (h : Run g₀ ops out g) (h₀ : InLine g₀ old) : ∃ region, InLine g region := by
  induction h with
  | start => exact ⟨old, h₀⟩
  | call _ hr ih =>
    obtain ⟨region, hin⟩ := ih
    exact ((Operation.run_ends _ hin).of_ok hr).changes.inLine hin
  | store _ _ _ _ w ih =>
    obtain ⟨region, hin⟩ := ih
    exact ⟨region, hin.store _ w⟩

theorem Run.setup_eq (h : Run g₀ ops out g) (h₀ : InLine g₀ old) : g.setup = g₀.setup := by
  induction h with
  | start => rfl
  | call hrun hr ih =>
    obtain ⟨region, hin⟩ := hrun.inLine h₀
    exact ((Operation.run_ends _ hin).of_ok hr).changes.setup_eq.trans ih
  | store _ _ _ _ _ ih => exact ih

/-- Without releases, the capacity stays at the minimum or above. -/
theorem Run.minSize_le (h : Run g₀ ops out g) (h₀ : InLine g₀ old)
    (hops : ∀ n, .giveBack n ∉ ops)
    (hmin : g₀.config.minSize ≤ g₀.objects.stop - g₀.objects.bottom) :
    g.config.minSize ≤ g.objects.stop - g.objects.bottom := by
  induction h with
  | start => exact hmin
  | call hrun hr ih =>
    obtain ⟨region, hin⟩ := hrun.inLine h₀
    have hd := (Operation.run_ends _ hin).of_ok hr
    have hs := hd.changes.setup_eq
    obtain ⟨region', hin'⟩ := hd.changes.inLine hin
    have hb := hin.bottom_eq_of_setup hin' hs
    have ih := ih fun n hn => hops n (List.mem_append_left _ hn)
    rw [config_eq_of_setup hs, hb]
    rcases hd.capacity fun n hn => hops n (hn ▸ List.mem_append_right _ (.head _)) with hle | hle
    · omega
    · rwa [hb] at hle
  | store _ _ _ _ _ ih => exact ih hops

/-! ## From a new generation on -/

/-- The smallest configuration with room to grow. -/
def smallConfig : Config where
  minSize := 4096
  maxSize := 8192
  initialSize := 4096
  alignment := 4096
  leastGrowth := 0
  perNode := false
  nodes := none
  largePages := false
  largePageSize := 0
  touchCommitted := false
  mangleUnused := false
  growthPause := 0
  workers := some 1
  iterationBlock := 512
  keepFigures := false

/-- An attempt to build a generation with it. -/
def small : Attempt Generation :=
  create (.ofBase 65536) ⟨⟨0, 1, 1⟩, {}, {}⟩ smallConfig "small" 1 0

section New

variable {sys : AddressSpace} {s : Setting} {c : Config} {name : String} {level id : Nat}
  (hc : (create sys s c name level id).outcome = .result g₀) (hr : Run g₀ ops out g)
include hc hr

/-- After every run, the parts are in line, and the setup is that of the new generation. -/
theorem Run.inLine_new : (∃ region, InLine g region) ∧ g.setup = g₀.setup ∧ g.setup.Own ∧
    g.config = c := by
  obtain ⟨region₀, hnew⟩ := create_new hc
  have hs := hr.setup_eq hnew.toInLine
  exact ⟨hr.inLine hnew.toInLine, hs, hs ▸ hnew.own,
    (config_eq_of_setup hs).trans hnew.config_eq⟩

/-- After every run from a new generation, the backing, the linear space and both side tables agree
on the committed region, which holds the top and the cursor. -/
theorem Run.parts_agree : ∃ region : Region,
    g.backing.whole = .ok g.reserved ∧ g.backing.committedPart = .ok region ∧
    region.start = g.reserved.start ∧ c.alignment ∣ region.size ∧ region.size ≤ c.maxSize ∧
    g.objects.extent = .ok region ∧ g.cards.covered = region ∧ g.crossings.covered = region ∧
    (region.start ≤ g.objects.top ∧ g.objects.top ≤ region.stop ∧ 8 ∣ g.objects.top) ∧
    (region.start ≤ g.cursor.next ∧ g.cursor.next ≤ region.stop) ∧
    ((∀ n, .giveBack n ∉ ops) → c.minSize ≤ region.size) := by
  obtain ⟨region₀, hnew⟩ := create_new hc
  obtain ⟨region, hin⟩ := hr.inLine hnew.toInLine
  have hs := hr.setup_eq hnew.toInLine
  have hconfig : g.config = c := (config_eq_of_setup hs).trans hnew.config_eq
  refine ⟨region, hin.whole, hin.committedPart, hin.start_eq, hconfig ▸ hin.dvd_size, ?_,
    hin.extent, hin.cards_eq, hin.crossings_eq, ⟨hin.bottom_le_top, hin.top_le, hin.dvd_top⟩,
    ⟨hin.bottom_le_cursor, hin.cursor_le⟩, fun hops => ?_⟩
  · have hmax := hnew.own.size_eq
    rw [← hs] at hmax
    have hmax : g.reserved.size = g.config.maxSize := hmax
    have := hin.start_eq
    have := hin.stop_le
    rw [hconfig] at hmax
    simp only [Region.size] at *
    omega
  · have hmin : g₀.config.minSize ≤ g₀.objects.stop - g₀.objects.bottom := by
      have hu : g₀.config.minSize ≤ g₀.config.initialSize := hnew.sound.usable.minSize_le
      have := hnew.initialSize_le
      rw [hnew.end_eq, hnew.bottom_eq]
      rw [hnew.config_eq] at hu ⊢
      exact Nat.le_trans hu this
    have := hr.minSize_le hnew.toInLine hops hmin
    rwa [hin.end_eq, hin.bottom_eq, hconfig] at this

end New

theorem Run.parts_agree_small : ∃ g₀ ops out g, small.outcome = .result g₀ ∧ Run g₀ ops out g ∧
    ops.length = 1 ∧
    ∃ region : Region, g.objects.extent = .ok region ∧ g.cards.covered = region := by
  have hrun : ∃ g₀, small.outcome = .result g₀ ∧
      ∃ out g, (Operation.handOut 2).run g₀ = .ok out g := ⟨_, rfl, _, _, rfl⟩
  obtain ⟨g₀, hc, out, g, hr⟩ := hrun
  obtain ⟨region, h⟩ := Run.parts_agree hc (.call .start hr)
  exact ⟨g₀, _, _, g, hc, .call .start hr, rfl, region, h.2.2.2.2.2.1, h.2.2.2.2.2.2.1⟩

section Keeps

variable {sys : AddressSpace} {s : Setting} {c : Config} {name : String} {level id : Nat}
  (hc : (create sys s c name level id).outcome = .result g₀) (hr : Run g₀ ops out g)
include hc hr

/-- Whichever operation is done after a run, and whether it ends with a result or with a fault,
everything below the top is loaded as it was before. -/
theorem Run.keeps_objects (op : Operation) {addr : Nat}
    (ha : addr + wordSize ≤ g.objects.top) :
    (∀ out' g', op.run g = .ok out' g' → g'.memory.load addr = g.memory.load addr) ∧
    ∀ e g', op.run g = .error e g' → g'.memory.load addr = g.memory.load addr := by
  obtain ⟨region₀, hnew⟩ := create_new hc
  obtain ⟨region, hin⟩ := hr.inLine hnew.toInLine
  have hends := op.run_ends hin
  constructor
  · intro out' g' hop
    exact ((hends.of_ok hop).changes.keeps hin).load_eq hin.dvd_top ha
  · intro e g' hop
    exact (hends.of_error hop).load_eq hin.dvd_top ha

end Keeps

/-- One block of two words after another. -/
theorem Run.keeps_objects_small : ∃ g₀ g g', small.outcome = .result g₀ ∧
    Run g₀ [.handOut 2] [⟨65536, 16⟩] g ∧ (Operation.handOut 3).run g = .ok [⟨65552, 24⟩] g' ∧
    ∀ addr, addr + 8 ≤ 65552 → g'.memory.load addr = g.memory.load addr := by
  have hrun : ∃ g₀, small.outcome = .result g₀ ∧
      ∃ g, (Operation.handOut 2).run g₀ = .ok [⟨65536, 16⟩] g ∧
        ∃ g', (Operation.handOut 3).run g = .ok [⟨65552, 24⟩] g' ∧ g.objects.top = 65552 :=
    ⟨_, rfl, _, rfl, _, rfl, rfl⟩
  obtain ⟨g₀, hc, g, hr, g', hr', htop⟩ := hrun
  refine ⟨g₀, g, g', hc, .call .start hr, hr', fun addr ha => ?_⟩
  exact (Run.keeps_objects hc (.call .start hr) (.handOut 3) (htop.symm ▸ ha)).1 _ _ hr'

end Tenured.Generation
