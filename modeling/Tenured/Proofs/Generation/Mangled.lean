import Tenured.Proofs.Generation.Safety

/-!
# Unused memory stays mangled

Where unused memory is mangled, all of it is: every word from the top up to the end of the linear
space holds the pattern (`Mangled`). The memory that a generation starts with is mangled when it is
built. Growth mangles what it adds, also where that was given back before and reads as zero; and
what it touches, and the headers that blocks get, alter no word above the top.

* `Changed.mangled`: every change keeps unused memory mangled.
* `Usage.unused_mangled`: so does every run, with stores anywhere in the blocks, and the check for
  the pattern never fails.
-/

namespace Tenured

namespace LinearSpace

/-- No address is found where all words hold the pattern. -/
theorem firstDisturbed?_eq_none {m : Memory} {addr limit : Nat} (hd : 8 ∣ addr) (hl : 8 ∣ limit)
    (hlt : limit < Word.limit)
    (h : ∀ i, addr / 8 ≤ i → i < limit / 8 → m.wordAt i = manglePattern) :
    firstDisturbed? m addr limit = .ok none := by
  have hp : ∀ addr, 8 ∣ addr → m.wordAt (addr / 8) = manglePattern →
      holdsPattern m addr = .ok true := fun addr hd hw => by
    simp only [holdsPattern, Memory.readWord_of_dvd hd, Memory.load_of_dvd hd, hw, beq_self_eq_true,
      bind, Except.bind]
    rfl
  -- on the steps of the search
  fun_induction firstDisturbed? m addr limit with
  | case1 => rfl
  | case2 addr hlim e he =>
    rw [hp addr hd (h _ (Nat.le_refl _) (by omega))] at he
    cases he
  | case3 addr hlim he =>
    rw [hp addr hd (h _ (Nat.le_refl _) (by omega))] at he
    cases he
  | case4 addr hlim he hover =>
    simp only [Object.wordSize] at hover
    omega
  | case5 addr hlim he hover ih =>
    simp only [Object.wordSize] at ih ⊢
    exact ih (Nat.dvd_add hd (Nat.dvd_refl 8)) fun i hi hi' => h i (by omega) hi'

/-- A space that is set up anew and mangled holds the pattern. -/
theorem wordAt_of_setUp {region : Region} {plan : Option TouchPlan} {m m' : Memory}
    {o o' : LinearSpace} (h : o.setUp region true true plan m = .ok (o', m')) {i : Nat}
    (hi : region.start / 8 ≤ i) (hi' : i < region.start / 8 + region.words) :
    m'.wordAt i = manglePattern := by
  obtain ⟨m₁, -, h⟩ := bind_eq_ok_iff.1 h
  obtain ⟨m₂, hm, h⟩ := bind_eq_ok_iff.1 h
  obtain ⟨_, -, hm⟩ := bind_eq_ok_iff.1 hm
  cases hm
  cases h
  rw [Memory.wordAt_fill, if_pos]
  exact ⟨hi, hi'⟩

end LinearSpace

namespace Generation

open Object (wordSize)

variable {g g' g₀ : Generation} {old region : Region} {words : Nat} {out out' : List Object}
  {ops : List Operation}

/-- Every word from the top up to the end of the linear space holds the pattern. -/
def Mangled (g : Generation) : Prop :=
  ∀ i, g.objects.top / 8 ≤ i → i < g.objects.stop / 8 →
    g.memory.wordAt i = LinearSpace.manglePattern

/-! ## One change -/

/-- Unused memory stays mangled where its words stay and there is no more of it. -/
theorem Mangled.of_wordAt (hm : Mangled g) (htop : g.objects.top ≤ g'.objects.top)
    (hstop : g'.objects.stop ≤ g.objects.stop)
    (hw : ∀ i, g'.objects.top / 8 ≤ i → i < g'.objects.stop / 8 →
      g'.memory.wordAt i = g.memory.wordAt i) : Mangled g' := by
  intro i hi hi'
  rw [hw i hi hi']
  exact hm i (by omega) (by omega)

/-- New memory is mangled from the old end up to the new one. -/
theorem Grown.mangled (hg : Grown g region g') (h : InLine g old)
    (hz : g.config.mangleUnused = true) (hm : Mangled g) : Mangled g' := by
  have hd := h.within.page_dvd_stop
  have hd' := (hg.inLine h).page_dvd_stop
  obtain ⟨addrs, -, hmem⟩ := hg.memory_eq
  intro i hi hi'
  rw [hg.objects_eq] at hi hi'
  simp only at hi hi'
  rw [hmem, Memory.wordAt_touchAll, mangledUpTo, if_pos hz, Memory.wordAt_fill]
  by_cases hlt : i < g.objects.stop / 8
  · rw [if_neg (by simp only [wordSize]; omega)]
    exact hm i hi hlt
  · have := hg.stop_lt
    rw [if_pos (by simp only [wordSize]; omega)]

theorem Shrunk.mangled (hs : Shrunk g region g') (h : InLine g old) (hm : Mangled g) :
    Mangled g' := by
  have hlt := hs.lt_stop
  have ho := hs.objects_eq
  refine hm.of_wordAt ?_ ?_ fun i _ hi => hs.wordAt_eq h ?_
  · exact Nat.le_of_eq (by rw [ho])
  · rw [ho]; exact Nat.le_of_lt hlt
  · rwa [ho] at hi

/-- The header lies below the new top. -/
theorem Carved.mangled (hc : Carved g words g') (h : InLine g old) (hm : Mangled g) :
    Mangled g' := by
  have ho := hc.objects_eq
  refine hm.of_wordAt ?_ (Nat.le_of_eq (by rw [ho])) fun i hi _ => hc.wordAt_eq h hi
  rw [ho]
  exact Nat.le_add_right ..

/-- Every change keeps unused memory mangled. -/
theorem Changed.mangled (hc : Changed g out g') (h : InLine g old)
    (hz : g.config.mangleUnused = true) (hm : Mangled g) : Mangled g' := by
  cases hc with
  | alike ha =>
    have ho := ha.objects_eq
    exact hm.of_wordAt (Nat.le_of_eq (by rw [ho])) (Nat.le_of_eq (by rw [ho])) fun i _ _ => by
      rw [ha.memory_eq]
  | grown hg => exact hg.mangled h hz hm
  | shrunk hs => exact hs.mangled h hm
  | touchedAhead ht =>
    have ho := ht.objects_eq
    obtain ⟨touched, -, hmem⟩ := ht.follow_eq
    exact hm.of_wordAt (Nat.le_of_eq (by rw [ho])) (Nat.le_of_eq (by rw [ho])) fun i _ _ => by
      rw [hmem, Memory.wordAt_touchAll]
  | carved hc => exact hc.mangled h hm

theorem Changes.mangled (hc : Changes g out g') (h : InLine g old)
    (hz : g.config.mangleUnused = true) (hm : Mangled g) : Mangled g' := by
  induction hc with
  | refl => exact hm
  | tail hc hlast ih =>
    obtain ⟨region, hin⟩ := hc.inLine h
    exact hlast.mangled hin (config_eq_of_setup hc.setup_eq ▸ hz) ih

/-- A store below the top alters no word above it. -/
theorem Mangled.store (hm : Mangled g) (hd : 8 ∣ g.objects.top) {addr : Nat}
    (ha : addr + wordSize ≤ g.objects.top) (w : Nat) :
    Mangled { g with memory := g.memory.store addr w } := by
  exact hm.of_wordAt (Nat.le_refl _) (Nat.le_refl _) fun i hi _ =>
    Memory.wordAt_store_of_le hd ha hi

/-! ## Blocks lie below the top -/

theorem Changed.top_le (hc : Changed g out g') : g.objects.top ≤ g'.objects.top := by
  cases hc with
  | alike ha => exact Nat.le_of_eq (by rw [ha.objects_eq])
  | grown hg => exact Nat.le_of_eq (by rw [hg.objects_eq])
  | shrunk hs => exact Nat.le_of_eq (by rw [hs.objects_eq])
  | touchedAhead ht => exact Nat.le_of_eq (by rw [ht.objects_eq])
  | carved hc => rw [hc.objects_eq]; exact Nat.le_add_right ..

/-- What was handed out ends at or below the top. -/
def BelowTop (g : Generation) (out : List Object) : Prop :=
  ∀ o ∈ out, o.addr + o.size ≤ g.objects.top

theorem Changed.belowTop (hc : Changed g out' g') (hb : BelowTop g out) :
    BelowTop g' (out ++ out') := by
  have htop := hc.top_le
  intro o ho
  rcases List.mem_append.1 ho with ho | ho
  · exact Nat.le_trans (hb o ho) htop
  · cases hc with
    | carved hc =>
      obtain rfl := List.mem_singleton.1 ho
      exact Nat.le_of_eq (by rw [hc.objects_eq])
    | _ => cases ho

theorem Changes.belowTop (hc : Changes g out' g') (hb : BelowTop g out) :
    BelowTop g' (out ++ out') := by
  induction hc with
  | refl => rwa [List.append_nil]
  | tail _ hlast ih =>
    rw [← List.append_assoc]
    exact hlast.belowTop ih

/-! ## Runs with stores anywhere in the blocks -/

/-- What becomes of a new generation by operations that end without a fault, in order, and the
blocks that they hand out. In between, words are stored anywhere into the blocks, so that their
headers may be lost. -/
inductive Usage (g₀ : Generation) : List Operation → List Object → Generation → Prop
  | start : Usage g₀ [] [] g₀
  | call {ops : List Operation} {op : Operation} {out out' : List Object} {g g' : Generation}
    (h : Usage g₀ ops out g) (hr : op.run g = .ok out' g') :
    Usage g₀ (ops ++ [op]) (out ++ out') g'
  | store {ops : List Operation} {out : List Object} {g : Generation} {o : Object}
    {addr : Nat} (h : Usage g₀ ops out g) (ho : o ∈ out) (hlow : o.addr ≤ addr)
    (hhigh : addr + wordSize ≤ o.addr + o.size) (w : Nat) :
    Usage g₀ ops out { g with memory := g.memory.store addr w }

/-- Every run is such a use. -/
theorem Run.usage (h : Run g₀ ops out g) : Usage g₀ ops out g := by
  induction h with
  | start => exact .start
  | call _ hr ih => exact ih.call hr
  | store _ ho hlow hhigh w ih =>
    exact ih.store ho (Nat.le_trans (Nat.le_add_right ..) hlow) hhigh w

/-- The parts stay in line, what was handed out below the top, and unused memory mangled. -/
theorem Usage.holds (h : Usage g₀ ops out g) (h₀ : InLine g₀ old)
    (hz : g₀.config.mangleUnused = true) (hm : Mangled g₀) :
    (∃ region, InLine g region) ∧ g.config = g₀.config ∧ BelowTop g out ∧ Mangled g := by
  induction h with
  | start => exact ⟨⟨old, h₀⟩, rfl, nofun, hm⟩
  | call _ hr ih =>
    obtain ⟨⟨region, hin⟩, hconfig, hb, hm⟩ := ih
    have hc := ((Operation.run_ends _ hin).of_ok hr).changes
    exact ⟨hc.inLine hin, (config_eq_of_setup hc.setup_eq).trans hconfig, hc.belowTop hb,
      hc.mangled hin (hconfig ▸ hz) hm⟩
  | store _ ho _ hhigh w ih =>
    obtain ⟨⟨region, hin⟩, hconfig, hb, hm⟩ := ih
    exact ⟨⟨region, hin.store _ w⟩, hconfig, hb,
      hm.store hin.dvd_top (Nat.le_trans hhigh (hb _ ho)) w⟩

section New

variable {sys : AddressSpace} {s : Setting} {c : Config} {name : String} {level id : Nat}
  (hc : (create sys s c name level id).outcome = .result g₀) (hz : c.mangleUnused = true)
include hc hz

/-- A new generation is mangled as a whole. -/
theorem create_mangled : Mangled g₀ := by
  obtain ⟨base, heap, committed, j, -, -, -, hf, hasm⟩ := create_assembled hc
  have hd := (hasm.inLine hf).page_dvd_start
  have hd' := (hasm.inLine hf).page_dvd_stop
  have hset := hasm.setUp_eq
  rw [hz] at hset
  intro i hi hi'
  rw [hasm.objects_eq] at hi hi'
  refine LinearSpace.wordAt_of_setUp hset hi ?_
  have := committed.start_le_stop
  simp only [Region.words, Region.size] at hi' ⊢
  omega

/-- However a generation is used that mangles unused memory, every word from its top up to its end
holds the pattern, so that the check for the pattern passes. -/
theorem Usage.unused_mangled (hu : Usage g₀ ops out g) :
    8 ∣ g.objects.top ∧ 8 ∣ g.objects.stop ∧
    (∀ addr, 8 ∣ addr → g.objects.top ≤ addr → addr < g.objects.stop →
      g.memory.load addr = LinearSpace.manglePattern) ∧
    g.objects.checkRest g.memory = .ok () := by
  obtain ⟨region₀, hnew⟩ := create_new hc
  obtain ⟨⟨region, hin⟩, -, -, hm⟩ :=
    hu.holds hnew.toInLine (hnew.config_eq ▸ hz) (create_mangled hc hz)
  have hd := hin.dvd_top
  have hd' : 8 ∣ g.objects.stop := Nat.dvd_trans (by decide) hin.within.page_dvd_stop
  refine ⟨hd, hd', fun addr ha htop hlt => ?_, ?_⟩
  · rw [Memory.load_of_dvd ha]
    exact hm _ (by omega) (by omega)
  · have hf := LinearSpace.firstDisturbed?_eq_none hd hd' hin.within.stop_lt hm
    simp only [LinearSpace.checkRest, LinearSpace.checkRestUpTo, hf, ne_eq, not_true_eq_false,
      if_false]
    rfl

end New

/-- A block whose header is overwritten, after growth, a release of what was added, and growth once
more. -/
theorem Usage.unused_mangled_small : ∃ g₀ out g,
    (create (.ofBase 65536) ⟨⟨0, 1, 1⟩, {}, {}⟩ { smallConfig with mangleUnused := true }
      "small" 1 0).outcome = .result g₀ ∧
    Usage g₀ [.handOut 2, .grow 4096, .resize 0, .grow 4096] (⟨65536, 16⟩ :: out) g ∧
    g.memory.load 65536 = 7 ∧ g.objects.checkRest g.memory = .ok () := by
  have hrun : ∃ g₀, (create (.ofBase 65536) ⟨⟨0, 1, 1⟩, {}, {}⟩
      { smallConfig with mangleUnused := true } "small" 1 0).outcome = .result g₀ ∧
      ∃ g, (Operation.handOut 2).run g₀ = .ok [⟨65536, 16⟩] g := ⟨_, rfl, _, rfl⟩
  obtain ⟨g₀, hc, g, h⟩ := hrun
  obtain ⟨region, hnew⟩ := create_new hc
  have hops : ∀ op ∈ [Operation.grow 4096, .resize 0, .grow 4096], op.Unconditional := by
    simp [Operation.Unconditional]
  obtain ⟨out', g', hr⟩ :=
    Run.exists_append hnew.toInLine (hnew.canGrow_of_false rfl rfl) hnew.own.size_eq
      (.call .start h) hops
  have ho : (⟨65536, 16⟩ : Object) ∈ [⟨65536, 16⟩] ++ out' := .head _
  have hu := hr.usage.store ho (Nat.le_refl 65536) (by decide) 7
  have hload : (g'.memory.store 65536 7).load 65536 = 7 := by
    rw [Memory.load_of_dvd (by decide), Memory.store_of_dvd (by decide), Memory.wordAt_setWord,
      if_pos rfl]
  exact ⟨g₀, out', _, hc, hu, hload, (Usage.unused_mangled hc rfl hu).2.2.2⟩

end Generation

end Tenured
