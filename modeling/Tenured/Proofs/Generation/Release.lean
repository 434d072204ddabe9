import Tenured.Proofs.Generation.Consistency
import Tenured.Proofs.Generation.Mangled

/-!
# Releases

A release is refused before anything is changed where it would reach below the top. Otherwise every
part follows it by exactly as much.

* `Generation.InLine.giveBack_of_le`, `Generation.InLine.giveBack_of_lt`: when a release is refused.
* `Generation.Shrunk.released`: what it leaves (`Released`).
* `Generation.Later.blank`: what was given back reads as zero until it is handed out or mangled,
  whatever is done in between (`Later`).
* `Generation.Run.gives_back`: all of this, after every run.
-/

namespace Tenured

/-! ## Memory that was given back -/

/-- No mapping ends beyond the last word. -/
def AddressSpace.Bounded (sys : AddressSpace) : Prop :=
  ∀ size base, sys.place size = .ok base → base + size ≤ Word.limit

theorem AddressSpace.InLowerHalf.bounded {sys : AddressSpace} (h : sys.InLowerHalf) :
    sys.Bounded := fun size base hb =>
  Nat.le_trans (h size base hb) (by decide)

namespace Memory

variable {m m' : Memory} {addr i : Nat}

theorem load_eq_zero (h : m.wordAt (addr / 8) = 0)
    (h' : 8 ∣ addr ∨ m.wordAt (addr / 8 + 1) = 0) : m.load addr = 0 := by
  rcases h' with hd | h'
  · rw [load_of_dvd hd, h]
  · simp [load, h, h']

end Memory

namespace Mapping

variable {mp : Mapping} {m m' : Memory} {addr len : Nat}

/-- Every word is left as it is or reads as zero. -/
theorem wordAt_giveBack_cases (h : mp.giveBack addr len m = .ok m') (i : Nat) :
    m'.wordAt i = m.wordAt i ∨ m'.wordAt i = 0 := by
  unfold giveBack at h
  split at h
  · cases h
    exact .inl rfl
  split at h
  · cases h
  split at h
  · cases h
  · cases h
    rw [Memory.wordAt_release]
    split
    · exact .inr rfl
    · exact .inl rfl

/-- Whole pages of a mapping can be given back. -/
theorem giveBack_eq_ok (hlow : mp.base ≤ addr) (hhigh : addr + len ≤ mp.base + mp.size)
    (hlt : addr + len < Word.limit) (hd : Page.size ∣ addr) (hl : len ≠ 0) :
    mp.giveBack addr len m = .ok (m.release (addr / Page.size) (Page.count len)) := by
  have hc : mp.containsBytes addr len = true := by
    simp only [containsBytes, Bool.and_eq_true, decide_eq_true_eq]
    exact ⟨⟨hlt, hlow⟩, hhigh⟩
  have hz : ¬ addr % Page.size ≠ 0 := fun h => h (Nat.mod_eq_zero_of_dvd hd)
  rw [giveBack, if_neg hl, hc, if_neg (by simp), if_neg hz]

end Mapping

namespace Generation

open Tenured.Action
open Object (wordSize)

variable {g g' g'' g₀ : Generation} {old region : Region} {bytes start stop : Nat}
  {out out' : List Object} {ops : List Operation}

/-- The words from one address up to another one read as zero, as far as they lie above the top. -/
def Blank (start stop : Nat) (g : Generation) : Prop :=
  ∀ i, start / 8 ≤ i → i < stop / 8 → g.objects.top / 8 ≤ i → g.memory.wordAt i = 0

/-- Whatever is loaded from blank memory above the top is zero. -/
theorem Blank.load_eq_zero (hb : Blank start stop g) (hd : 8 ∣ start) (hd' : 8 ∣ stop)
    (htop : 8 ∣ g.objects.top) {addr : Nat} (hlow : start ≤ addr) (hhigh : addr + wordSize ≤ stop)
    (ha : g.objects.top ≤ addr) : g.memory.load addr = 0 := by
  simp only [wordSize] at hhigh
  refine Memory.load_eq_zero (hb _ (by omega) (by omega) (by omega)) ?_
  by_cases hda : 8 ∣ addr
  · exact .inl hda
  · exact .inr (hb _ (by omega) (by omega) (by omega))

/-- The reservation lies in its mapping. -/
def Setup.Mapped (s : Setup) : Prop :=
  s.mapping.base ≤ s.start ∧ s.stop ≤ s.mapping.base + s.mapping.size

/-- What a release gives back is blank. -/
theorem Shrunk.blank (hs : Shrunk g region g') (h : InLine g old) (hm : g.setup.Mapped) :
    Blank region.stop g.objects.stop g' := by
  have hstart : g.backing.base.start = g.reserved.start := h.sound.start_eq
  have hstop : g.backing.base.stop = g.reserved.stop := h.sound.stop_eq
  have hlow : g.backing.base.mapping.base ≤ g.backing.base.start := hm.1
  have hhigh : g.backing.base.stop ≤ g.backing.base.mapping.base + g.backing.base.mapping.size :=
    hm.2
  have hlt := hs.lt_stop
  have hle := h.within.stop_le
  have hbot := hs.start_eq.trans h.within.bottom_eq
  have hbounds := region.start_le_stop
  have hend := h.within.stop_lt
  have hd := (hs.inLine h).page_dvd_stop
  have hd' := h.within.page_dvd_stop
  have hnew : g.backing.base.high - (g.objects.stop - region.stop) = region.stop := by
    rw [h.high_eq, ← h.end_eq]
    omega
  intro i hi hi' _
  rw [hs.memory_eq, Reservation.giveBack, hnew, Mapping.giveBack_eq_ok (by omega) (by omega)
    (by omega) hd (by omega)]
  show (g.memory.release _ _).wordAt i = 0
  rw [Memory.wordAt_release, if_pos]
  simp only [Memory.pageWords, Page.size, Page.count]
  omega

/-! ## Blank memory stays blank -/

/-- Blank memory stays blank where the top does not move down and each word above it is left as it
is, or reads as zero. -/
theorem Blank.of_wordAt (hb : Blank start stop g) (htop : g.objects.top ≤ g'.objects.top)
    (hw : ∀ i, g'.objects.top / 8 ≤ i →
      g'.memory.wordAt i = g.memory.wordAt i ∨ g'.memory.wordAt i = 0) : Blank start stop g' := by
  intro i hi hi' ht
  rcases hw i ht with heq | hz
  · rw [heq]
    exact hb i hi hi' (by omega)
  · exact hz

/-- Without mangling, every change keeps blank memory blank. -/
theorem Changed.blank (hc : Changed g out g') (h : InLine g old)
    (hz : g.config.mangleUnused = false) (hb : Blank start stop g) : Blank start stop g' := by
  refine hb.of_wordAt hc.top_le fun i hi => ?_
  cases hc with
  | alike ha => exact .inl (by rw [ha.memory_eq])
  | grown hg =>
    obtain ⟨addrs, -, hmem⟩ := hg.memory_eq
    rw [hmem, Memory.wordAt_touchAll, mangledUpTo, hz]
    exact .inl rfl
  | shrunk hs =>
    rw [hs.memory_eq, Reservation.giveBack]
    split
    · rename_i m hm
      exact Mapping.wordAt_giveBack_cases hm i
    · exact .inl rfl
  | touchedAhead ht =>
    obtain ⟨touched, -, hmem⟩ := ht.follow_eq
    exact .inl (by rw [hmem, Memory.wordAt_touchAll])
  | carved hc => exact .inl (hc.wordAt_eq h hi)

theorem Changes.blank (hc : Changes g out g') (h : InLine g old)
    (hz : g.config.mangleUnused = false) (hb : Blank start stop g) : Blank start stop g' := by
  induction hc with
  | refl => exact hb
  | tail hc hlast ih =>
    obtain ⟨region, hin⟩ := hc.inLine h
    exact hlast.blank hin (config_eq_of_setup hc.setup_eq ▸ hz) ih

/-- What becomes of a generation by operations that end without a fault. In between, words are
stored anywhere below the top, where all blocks lie. -/
inductive Later (g₀ : Generation) : Generation → Prop
  | start : Later g₀ g₀
  | call {op : Operation} {out : List Object} {g g' : Generation} (h : Later g₀ g)
    (hr : op.run g = .ok out g') : Later g₀ g'
  | store {g : Generation} {addr : Nat} (h : Later g₀ g) (ha : addr + wordSize ≤ g.objects.top)
    (w : Nat) : Later g₀ { g with memory := g.memory.store addr w }

/-- Without mangling, blank memory stays blank until it is handed out. -/
theorem Later.blank (hl : Later g₀ g) (h₀ : InLine g₀ old)
    (hz : g₀.config.mangleUnused = false) (hb : Blank start stop g₀) :
    (∃ region, InLine g region) ∧ g.config = g₀.config ∧ Blank start stop g := by
  induction hl with
  | start => exact ⟨⟨old, h₀⟩, rfl, hb⟩
  | call _ hr ih =>
    obtain ⟨⟨region, hin⟩, hconfig, hb⟩ := ih
    have hc := ((Operation.run_ends _ hin).of_ok hr).changes
    exact ⟨hc.inLine hin, (config_eq_of_setup hc.setup_eq).trans hconfig,
      hc.blank hin (hconfig ▸ hz) hb⟩
  | store _ ha w ih =>
    obtain ⟨⟨region, hin⟩, hconfig, hb⟩ := ih
    exact ⟨⟨region, hin.store _ w⟩, hconfig, hb.of_wordAt (Nat.le_refl _) fun i hi =>
      .inl (Memory.wordAt_store_of_le hin.dvd_top ha hi)⟩

/-! ## What a release does -/

section GiveBack

variable (h : InLine g old)
include h

/-- A release of less than one alignment unit does nothing. -/
theorem InLine.giveBack_of_eq_zero (hz : Rounding.roundDown bytes g.config.alignment = 0) :
    giveBack g.guard bytes g = .ok () g := by
  have htop := h.top_le
  have hends : Ends (giveBack g.guard bytes) g (fun _ => GivesBack g bytes) fun _ _ => False :=
    (giveBack_ends h).mono (fun _ _ h => h) fun _ _ he => by
      have := he.2.1
      omega
  obtain ⟨_, g', hrun, hg⟩ := hends.exists_ok
  cases hg with
  | nothing _ => exact hrun
  | shrunk hs hsize =>
    have := hs.lt_stop
    omega

/-- A release is refused where it would reach below the top. -/
theorem InLine.giveBack_of_lt
    (hlt : old.stop < g.objects.top + Rounding.roundDown bytes g.config.alignment) :
    giveBack g.guard bytes g = .error (.releaseBelowTop g.name
      (Rounding.roundDown bytes g.config.alignment) g.objects.top) g := by
  have htop := h.top_le
  have hends : Ends (giveBack g.guard bytes) g (fun _ _ => False) fun e g' =>
      g' = g ∧ e = .releaseBelowTop g.name (Rounding.roundDown bytes g.config.alignment)
        g.objects.top := by
    refine (giveBack_ends h).mono (fun _ g' hg => ?_) fun _ _ he => ⟨he.1, he.2.2⟩
    cases hg with
    | nothing hz => omega
    | shrunk hs hsize =>
      have := hs.top_le
      have := h.end_eq
      omega
  obtain ⟨_, _, hrun, rfl, rfl⟩ := hends.exists_error
  exact hrun

/-- Any other release shrinks the generation. -/
theorem InLine.giveBack_of_le (hz : Rounding.roundDown bytes g.config.alignment ≠ 0)
    (hle : g.objects.top + Rounding.roundDown bytes g.config.alignment ≤ old.stop) :
    ∃ g' region, giveBack g.guard bytes g = .ok () g' ∧ Shrunk g region g' ∧
      region.stop + Rounding.roundDown bytes g.config.alignment = g.objects.stop := by
  obtain ⟨_, g', hrun, hg⟩ := ((giveBack_ends h).mono (fun _ _ h => h) fun _ _ he =>
    Nat.not_lt.2 hle he.2.1).exists_ok
  cases hg with
  | nothing hz' => exact absurd hz' hz
  | shrunk hs hsize => exact ⟨g', _, hrun, hs, hsize⟩

end GiveBack

/-- What a release of so many bytes leaves of a generation with these blocks. Every part follows it
by exactly as much, and what lies below the top stays. -/
structure Released (g : Generation) (out : List Object) (size : Nat) (g' : Generation) : Prop where
  capacity_eq : ∃ capacity, g.capacity = .ok (capacity + size) ∧ g'.capacity = .ok capacity
  committed_eq : g'.backing.committed + size = g.backing.committed
  high_eq : g'.backing.high + size = g.backing.high
  cards_start : g'.cards.covered.start = g.cards.covered.start
  cards_stop : g'.cards.covered.stop + size = g.cards.covered.stop
  crossings_start : g'.crossings.covered.start = g.crossings.covered.start
  crossings_stop : g'.crossings.covered.stop + size = g.crossings.covered.stop
  end_eq : g'.objects.stop + size = g.objects.stop
  top_eq : g'.objects.top = g.objects.top
  load_eq : ∀ addr, addr + wordSize ≤ g.objects.top → g'.memory.load addr = g.memory.load addr
  finds : ∀ addr, g.objects.bottom ≤ addr → addr < g.objects.top →
    g.Finds out addr ∧ g'.startOf addr = g.startOf addr
  cursor_eq : g'.cursor = { g.cursor with next := min g.cursor.next g'.backing.high }
  entry_eq : ∀ k, g'.backing.high ≤ g'.crossings.starts.blockStart k → g'.crossings.entry k = none

/-- No start is recorded for a block from the top on. -/
theorem Tiled.entry_eq_none (ht : Tiled g out) {k : Nat}
    (hk : g.objects.top ≤ g.crossings.starts.blockStart k) : g.crossings.entry k = none := by
  cases he : g.crossings.entry k with
  | none => rfl
  | some offset =>
    obtain ⟨-, o, ho, haddr⟩ := ht.records.sound k offset he
    have := ht.tiles.bounds ho
    have := (ht.tiles.allowed ho).1
    have := Object.minSize_pos
    omega

theorem Shrunk.released (hs : Shrunk g region g') (h : InLine g old) (ht : Tiled g out)
    (ho : g.setup.Own) {size : Nat} (hsize : region.stop + size = g.objects.stop) :
    Released g out size g' := by
  have hin := hs.inLine h
  have ho' : g'.setup.Own := hs.setup_eq ▸ ho
  have ht' : Tiled g' out := List.append_nil out ▸ (Changed.shrunk hs).tiled h ht
  have htop : g'.objects.top = g.objects.top := by rw [hs.objects_eq]
  have hbot : g'.objects.bottom = g.objects.bottom := by rw [hs.objects_eq]; exact hs.start_eq
  have hstart : region.start = old.start := hs.start_eq.trans h.bottom_eq
  have hstop : region.stop + size = old.stop := hsize.trans h.end_eq
  have hle := region.start_le_stop
  have hbytes : region.size + size = old.size := by
    simp only [Region.size]
    omega
  refine ⟨⟨region.size, hbytes ▸ h.capacity, hin.capacity⟩, ?_, ?_, ?_, ?_, ?_, ?_, ?_, htop, ?_,
    ?_, ?_, fun k hk => ?_⟩
  · rw [hin.backing_committed, h.backing_committed, hbytes]
  · rw [hin.backing_high, h.backing_high, hstop]
  · rw [hin.cards_eq, h.cards_eq, hstart]
  · rw [hin.cards_eq, h.cards_eq, hstop]
  · rw [hin.crossings_eq, h.crossings_eq, hstart]
  · rw [hin.crossings_eq, h.crossings_eq, hstop]
  · rw [hin.end_eq, h.end_eq, hstop]
  · exact fun addr ha => (hs.keeps h).load_eq h.dvd_top ha
  · intro addr hlow hhigh
    obtain ⟨o, hmem, hholds, hfound⟩ := ht.finds h ho hlow hhigh
    obtain ⟨o', hmem', hholds', hfound'⟩ :=
      ht'.finds hin ho' (hbot.symm ▸ hlow) (htop.symm ▸ hhigh)
    obtain rfl := ht.tiles.eq_of_holds hmem hmem' hholds hholds'
    exact ⟨⟨o, hmem, hholds, hfound⟩, hfound'.trans hfound.symm⟩
  · rw [hs.cursor_eq, hin.backing_high]
    rfl
  · refine ht'.entry_eq_none (Nat.le_trans ?_ hk)
    rw [htop, hin.backing_high]
    exact hs.top_le

/-! ## After a run -/

section New

variable {sys : AddressSpace} {s : Setting} {c : Config} {name : String} {level id : Nat}
  (hc : (create sys s c name level id).outcome = .result g₀)
include hc

/-- A new reservation lies in its mapping, where mappings consist of words. -/
theorem create_mapped (hb : sys.Bounded) : g₀.setup.Mapped := by
  obtain ⟨base, heap, committed, _, hbase, -, -, hf, hasm⟩ := create_assembled hc
  obtain ⟨-, -, -, -, -, -, -, hplace, hle, hlow⟩ := Reservation.reserve_result hbase
  obtain ⟨-, -, -, -, high, -, -, -, heq⟩ := hasm.backing_base hf
  show g₀.backing.base.mapping.base ≤ g₀.backing.base.start ∧
    g₀.backing.base.stop ≤ g₀.backing.base.mapping.base + g₀.backing.base.mapping.size
  rw [heq]
  exact ⟨hlow (hb _ _ hplace), hle⟩

/-- After every run from a new generation, a release, rounded down to the alignment, does one of
three things. A release of nothing does nothing. One of more than is committed, or below the top, is
refused, and nothing is changed. After any other, every part has followed it. What was given back
reads as zero then and, where memory is not mangled, from then on until it is handed out. -/
theorem Run.gives_back (hr : Run g₀ ops out g) (bytes : Nat) :
    ∃ size, size = Rounding.roundDown bytes c.alignment ∧
      (size = 0 → giveBack g.guard bytes g = .ok () g) ∧
      (g.backing.committed < size ∨ g.backing.high - size < g.objects.top →
        giveBack g.guard bytes g = .error (.releaseBelowTop g.name size g.objects.top) g) ∧
      (size ≠ 0 → size ≤ g.backing.committed → g.objects.top ≤ g.backing.high - size →
        ∃ g', giveBack g.guard bytes g = .ok () g' ∧ Released g out size g' ∧
          (sys.Bounded → ∀ addr, g'.backing.high ≤ addr → addr + wordSize ≤ g.backing.high →
            g'.memory.load addr = 0 ∧ (c.mangleUnused = false → ∀ g'', Later g' g'' →
              g''.objects.top ≤ addr → g''.memory.load addr = 0))) := by
  obtain ⟨old, hin, ht, ho⟩ := hr.holds hc
  obtain ⟨-, hs, -, hconfig⟩ := hr.inLine_new hc
  have htop := hin.top_le
  have hlow := hin.bottom_le_top
  have hhigh := hin.backing_high
  have hcommitted : g.backing.committed = old.stop - old.start := hin.backing_committed
  refine ⟨_, rfl, fun hz => hin.giveBack_of_eq_zero (hconfig ▸ hz), fun hor => ?_,
    fun hz hle hroom => ?_⟩
  · have hlt : old.stop < g.objects.top + Rounding.roundDown bytes g.config.alignment := by
      rw [hconfig]
      omega
    exact hconfig ▸ hin.giveBack_of_lt hlt
  · have hfits : g.objects.top + Rounding.roundDown bytes g.config.alignment ≤ old.stop := by
      rw [hconfig]
      omega
    obtain ⟨g', region, hrun, hshrunk, hsize⟩ := hin.giveBack_of_le (hconfig ▸ hz) hfits
    refine ⟨g', hrun, hconfig ▸ hshrunk.released hin ht ho hsize, fun hb addr ha ha' => ?_⟩
    have hin' := hshrunk.inLine hin
    have hblank := hshrunk.blank hin (hs ▸ create_mapped hc hb)
    have hd : 8 ∣ region.stop := Nat.dvd_trans (by decide) hin'.page_dvd_stop
    have hd' : 8 ∣ g.objects.stop := Nat.dvd_trans (by decide) hin.within.page_dvd_stop
    rw [hin'.backing_high] at ha
    rw [hhigh, ← hin.end_eq] at ha'
    refine ⟨hblank.load_eq_zero hd hd' hin'.dvd_top ha ha' (Nat.le_trans hin'.top_le ha),
      fun hz g'' hlater htop => ?_⟩
    have hz' : g'.config.mangleUnused = false := by
      rw [config_eq_of_setup hshrunk.setup_eq, hconfig, hz]
    obtain ⟨⟨_, hin''⟩, -, hblank'⟩ := hlater.blank hin' hz' hblank
    exact hblank'.load_eq_zero hd hd' hin''.dvd_top ha ha' htop

end New

/-- The second of two pages is given back, committed again, and reads as zero. -/
theorem Run.gives_back_small : ∃ g₀ g g' g'',
    (create (.ofBase 65536) ⟨⟨0, 1, 1⟩, {}, {}⟩ { smallConfig with initialSize := 8192 } "small" 1
      0).outcome = .result g₀ ∧
    Run g₀ [.handOut 2] [⟨65536, 16⟩] g ∧ giveBack g.guard 4097 g = .ok () g' ∧
    g'.backing.committed = 4096 ∧ Later g' g'' ∧ g''.objects.stop = 73728 ∧
    g''.memory.load 69632 = 0 := by
  have hrun : ∃ g₀, (create (.ofBase 65536) ⟨⟨0, 1, 1⟩, {}, {}⟩
      { smallConfig with initialSize := 8192 } "small" 1 0).outcome = .result g₀ ∧
      ∃ g, (Operation.handOut 2).run g₀ = .ok [⟨65536, 16⟩] g ∧ g.backing.committed = 8192 ∧
        g.backing.high = 73728 ∧ g.objects.top = 65552 ∧ g.reserved.stop = 73728 :=
    ⟨_, rfl, _, rfl, rfl, rfl, rfl, rfl⟩
  obtain ⟨g₀, hc, g, hr, hcommitted, hhigh, htop, hstop⟩ := hrun
  have hr : Run g₀ [.handOut 2] [⟨65536, 16⟩] g := .call .start hr
  obtain ⟨size, hsize, -, -, hgives⟩ := Run.gives_back hc hr 4097
  obtain rfl : size = 4096 := hsize
  obtain ⟨g', hrun, hrel, hzero⟩ := hgives (by decide) (by rw [hcommitted]; decide)
    (by rw [hhigh, htop]; decide)
  have hcommitted' : g'.backing.committed = 4096 := by
    have := hrel.committed_eq
    omega
  have hhigh' : g'.backing.high = 69632 := by
    have := hrel.high_eq
    omega
  -- the rest is committed again
  obtain ⟨region₀, hnew⟩ := create_new hc
  obtain ⟨region, hin⟩ := hr.inLine hnew.toInLine
  have hs := hr.setup_eq hnew.toInLine
  have hc' := ((giveBack_ends hin).of_ok hrun).changes
  obtain ⟨region', hin'⟩ := hc'.inLine hin
  have hs' : g'.setup = g₀.setup := hc'.setup_eq.trans hs
  have hends : Ends Operation.growFully.run g' (fun _ g'' => Raised g' g'' ∧
      g''.objects.stop = g'.reserved.stop) fun _ _ => False := by
    obtain ⟨granted, g'', hfully, hg⟩ := hin'.exists_growFully
      (hs' ▸ hnew.canGrow_of_false rfl rfl) (hs' ▸ hnew.own).grants_eq
    refine ends_bind.2 (ends_get.2 (ends_bind.2 (ends_discard.2 ?_)))
    rw [Ends, hfully]
    exact hg
  obtain ⟨_, g'', hop, hraised, hend⟩ := hends.exists_ok
  have hend : g''.objects.stop = 73728 := by
    rw [hend, reserved_eq_of_setup hc'.setup_eq, hstop]
  refine ⟨g₀, g, g', g'', hc, hr, hrun, hcommitted', .call .start hop, hend, ?_⟩
  refine (hzero (AddressSpace.inLowerHalf_ofBase (by decide)).bounded 69632 (by omega)
    (by rw [hhigh]; decide)).2 rfl g'' (.call .start hop) ?_
  rw [hraised.top_eq, hrel.top_eq, htop]
  decide

end Generation

end Tenured
