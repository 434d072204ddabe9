import Tenured.Proofs.Generation.Tiled

/-!
# While the parts follow a commit

A granted commit moves the end of the backing, and the other parts follow by one update after
another (`Generation.followUps`). `Generation.InOrder` says of a list of updates that each finds
what it relies on when its turn comes, and that the last leaves all bounds where they belong; the
bounds that updates move are all that matters for that (`Extents`), and handing out a block moves
none of them.

`Generation.Underway g region us` says that the parts of `g` are following a commit up to the end of
a region, and that the updates `us` are still to be done:

* `InLine.commit_underway`: so it is after the commit.
* `Underway.apply_ends`: each update keeps it so. It leaves what lies below the top as it is, and
  the blocks tiled.
* `Underway.inLine`: when no update is left, the parts are in line.
-/

namespace Tenured.Generation

open Tenured.Action

/-- The updates that follow a commit, from the generation before it and the backing after it. -/
def followUps (g : Generation) (b : Backing) : Except Fault (List Update) := do
  let fresh ← Region.ofBounds g.backing.high b.high
  let region ← b.committedPart
  return (if g.config.mangleUnused then [.mangle fresh] else []) ++
    updates region g.config.touchCommitted

theorem followUps_eq {g : Generation} {b : Backing} {fresh region : Region}
    (hf : Region.ofBounds g.backing.high b.high = .ok fresh)
    (hr : b.committedPart = .ok region) :
    g.followUps b = .ok ((if g.config.mangleUnused then [.mangle fresh] else []) ++
      updates region g.config.touchCommitted) := by
  rw [followUps, hf, hr]
  rfl

/-! ## Updates in order -/

/-- The bounds that updates move. -/
structure Extents where
  cards : Region
  crossings : Region
  bottom : Nat
  stop : Nat

/-- The bounds of a generation that updates move. -/
def extents (g : Generation) : Extents :=
  ⟨g.cards.covered, g.crossings.covered, g.objects.bottom, g.objects.stop⟩

/-- The bounds after an update. -/
def Extents.after (e : Extents) : Update → Extents
  | .coverCards region => { e with cards := region }
  | .coverCrossings region => { e with crossings := region }
  | .setBottom region => { e with bottom := region.start }
  | .setStop stop => { e with stop }
  | _ => e

/-- What an update that follows a commit relies on: new memory lies above the end, the end moves
after both side tables, and the cursor after the end. -/
def Extents.Ready (e : Extents) (region : Region) : Update → Prop
  | .mangle fresh => fresh.start = e.stop ∧ fresh.stop = region.stop ∧ e.stop < region.stop
  | .touchNew r => r = region ∧ e.stop < region.stop
  | .coverCards r | .coverCrossings r | .setBottom r => r = region
  | .setStop stop => stop = region.stop ∧ e.cards = region ∧ e.crossings = region
  | .advanceCursor stop | .retreatCursor stop => stop = region.stop ∧ stop = e.stop

/-- Each update finds what it relies on, and all of them bring the bounds in line. -/
def InOrder (region : Region) : List Update → Extents → Prop
  | [], e => e = ⟨region, region, region.start, region.stop⟩
  | u :: us, e => e.Ready region u ∧ InOrder region us (e.after u)

/-- Covering comes first, and the end of the linear space before the cursor. -/
theorem inOrder_updates {e : Extents} {region : Region} (hlt : e.stop < region.stop)
    (touched : Bool) : InOrder region (updates region touched) e := by
  cases touched
  · exact ⟨rfl, rfl, rfl, ⟨rfl, rfl, rfl⟩, ⟨rfl, rfl⟩, rfl⟩
  · exact ⟨rfl, rfl, ⟨rfl, hlt⟩, rfl, ⟨rfl, rfl, rfl⟩, ⟨rfl, rfl⟩, rfl⟩

variable {g g' : Generation} {old region : Region} {words : Nat} {out : List Object}
  {us : List Update} {u : Update}

/-- The backing is committed up to the end of a region, and the other parts have these updates left
to follow it. -/
structure Underway (g : Generation) (region : Region) (us : List Update) : Prop
    extends Committed g region where
  within : Within g
  end_le : g.objects.stop ≤ region.stop
  inOrder : InOrder region us g.extents
  touched : ∀ r, .touchNew r ∈ us → g.config.touchCommitted = true

theorem InLine.underway (h : InLine g region) : Underway g region [] := by
  refine ⟨h.toCommitted, h.within, Nat.le_of_eq h.end_eq, ?_, nofun⟩
  show g.extents = _
  rw [extents, h.cards_eq, h.crossings_eq, h.bottom_eq, h.end_eq]

/-- When no update is left, the parts are in line. -/
theorem Underway.inLine (h : Underway g region []) : InLine g region := by
  have he : g.extents = ⟨region, region, region.start, region.stop⟩ := h.inOrder
  obtain ⟨hcards, hcrossings, hb, hs⟩ := Extents.mk.inj he
  have hw := h.within
  exact ⟨h.toCommitted, hcards, hcrossings, hb, hs, hb ▸ hw.bottom_le_top, hs ▸ hw.top_le,
    hw.dvd_top, hb ▸ hw.bottom_le_cursor, hs ▸ hw.cursor_le⟩

/-- Where the bounds stay, the same updates are left. -/
theorem Stays.underway (hs : Stays g g') (h : Underway g region us) (hw : Within g') :
    Underway g' region us where
  sound := hw.sound
  start_eq := by rw [reserved_eq_of_setup hs.setup_eq]; exact h.start_eq
  stop_le := by rw [reserved_eq_of_setup hs.setup_eq]; exact h.stop_le
  dvd_stop := by rw [config_eq_of_setup hs.setup_eq]; exact h.dvd_stop
  high_eq := by rw [hs.base_eq]; exact h.high_eq
  within := hw
  end_le := by rw [hs.end_eq]; exact h.end_le
  inOrder := by
    have he : g'.extents = g.extents := by
      rw [extents, hs.cards_eq, hs.covered_eq, hs.bottom_eq, hs.end_eq, extents]
    rw [he]
    exact h.inOrder
  touched r hr := by rw [config_eq_of_setup hs.setup_eq]; exact h.touched r hr

/-! ## A block handed out meanwhile -/

section HandsOut

variable {r : Option Nat} (ho : HandsOut g words r g')
include ho

theorem HandsOut.stays : Stays g g' := by
  cases ho with
  | none _ => exact .refl g
  | some hc ht => exact hc.stays.trans ht.stays

theorem HandsOut.within (h : Within g) : Within g' := by
  cases ho with
  | none _ => exact h
  | some hc ht => exact ht.within (hc.within h)

theorem HandsOut.tiled (h : Within g) (ht : Tiled g out) :
    Tiled g' (out ++ blockAt words r) := by
  cases ho with
  | none _ => rwa [blockAt, Option.toList_none, List.map_nil, List.append_nil]
  | some hc hta => exact (ht.carved h hc).touchedAhead (hc.within h) hta

/-- A block lies in what both side tables cover. -/
theorem HandsOut.covered (h : Within g) {o : Object} (hmem : o ∈ blockAt words r) :
    (g.cards.covered.start ≤ o.addr ∧ o.addr + o.size ≤ g.cards.covered.stop) ∧
      g.crossings.covered.start ≤ o.addr ∧ o.addr + o.size ≤ g.crossings.covered.stop := by
  cases ho with
  | none _ => cases hmem
  | some hc _ =>
    obtain rfl := List.mem_singleton.1 hmem
    have hle := hc.le_stop
    refine ⟨⟨?_, Nat.le_trans hle h.le_cards⟩, ?_, Nat.le_trans hle h.le_crossings⟩
    · exact h.cards_start ▸ h.bottom_le_top
    · exact h.crossings_start ▸ h.bottom_le_top

end HandsOut

/-! ## One update -/

/-- What an update leaves: what is still to be done, what lies below the top, and the blocks. -/
structure Proceeds (g : Generation) (region : Region) (us : List Update) (g' : Generation) : Prop
    where
  underway : Underway g' region us
  setup_eq : g'.setup = g.setup
  keeps : Keeps g g'
  tiled : ∀ {out}, Tiled g out → Tiled g' out

/-- An update that moves the bounds as it should, and nothing that lies below the top. -/
theorem Underway.proceeds (h : Underway g region (u :: us)) (hs : g'.setup = g.setup)
    (hbase : g'.backing.base = g.backing.base) (he : g'.extents = g.extents.after u)
    (hw : Within g') (hle : g'.objects.stop ≤ region.stop)
    (hb : g'.objects.bottom = g.objects.bottom) (ht : g'.objects.top = g.objects.top)
    (hm : ∀ i, i < g.objects.top / 8 → g'.memory.wordAt i = g.memory.wordAt i)
    (hr : ∀ {out}, Tiled g out → g'.crossings.RecordsObjects out) : Proceeds g region us g' := by
  have hk : Keeps g g' := ⟨Nat.le_of_eq ht.symm, hm⟩
  refine ⟨⟨⟨hw.sound, ?_, ?_, ?_, ?_⟩, hw, hle, ?_, fun r hmem => ?_⟩, hs, hk, fun hto =>
    hto.of_keeps h.within hk hb ht (hr hto)⟩
  · rw [reserved_eq_of_setup hs]; exact h.start_eq
  · rw [reserved_eq_of_setup hs]; exact h.stop_le
  · rw [config_eq_of_setup hs]; exact h.dvd_stop
  · rw [hbase]; exact h.high_eq
  · rw [he]; exact h.inOrder.2
  · rw [config_eq_of_setup hs]; exact h.touched r (.tail _ hmem)

/-- The region starts at the bottom, as the backing does. -/
theorem Underway.start_eq_bottom (h : Underway g region us) : region.start = g.objects.bottom :=
  h.start_eq.trans h.within.bottom_eq.symm

theorem Underway.top_le (h : Underway g region us) : g.objects.top ≤ region.stop :=
  Nat.le_trans h.within.top_le h.end_le

/-- An update can be done, unless memory cannot be touched, and leaves the others to be done. -/
abbrev Doable (g : Generation) (region : Region) (us : List Update) (u : Update) : Prop :=
  Ends u.apply g (fun _ g' => Proceeds g region us g') fun _ _ => ¬ g.setup.CanGrow

/-- New memory starts at the end, which the top has not passed. -/
theorem Underway.mangle_doable {fresh : Region} (h : Underway g region (.mangle fresh :: us)) :
    Doable g region us (.mangle fresh) := by
  have hw := h.within
  obtain ⟨hfresh, hstop, hlt⟩ := h.inOrder.1
  have hfresh : fresh.start = g.objects.stop := hfresh
  have hd : 8 ∣ fresh.start := hfresh ▸ Nat.dvd_trans (by decide) hw.page_dvd_stop
  refine (ends_mangle (hstop ▸ hlt) hd).2 ?_
  refine h.proceeds rfl rfl rfl { hw with } h.end_le rfl rfl (fun i hi => ?_) fun ht => ht.records
  have := hw.top_le
  rw [Memory.wordAt_fill, if_neg]
  simp only [Object.wordSize]
  omega

theorem Underway.coverCards_doable {r : Region} (h : Underway g region (.coverCards r :: us)) :
    Doable g region us (.coverCards r) := by
  obtain rfl : r = region := h.inOrder.1
  refine (ends_coverCards h.heap_includes h.isCardStart_start).2 ?_
  have hs : ({ g with
      coverChanges := g.coverChanges.push ⟨.cards, r, g.objects.stop, g.cards.covered⟩
      cards := ⟨g.cards.cards.recover g.cards.covered r false, r⟩ } : Generation).setup =
      g.setup := by
    simp only [setup, BlockTable.span_recover, BlockTable.size_recover]
  refine h.proceeds hs rfl rfl ?_ h.end_le rfl rfl (fun _ _ => rfl) fun ht => ht.records
  exact { h.within with
    sound := hs ▸ h.within.sound
    cards_start := h.start_eq_bottom
    le_cards := h.end_le }

/-- Blocks handed out since the commit lie in the old region and in the new one, so their entries
are kept. -/
theorem Underway.coverCrossings_doable {r : Region}
    (h : Underway g region (.coverCrossings r :: us)) : Doable g region us (.coverCrossings r) := by
  obtain rfl : r = region := h.inOrder.1
  refine (ends_coverCrossings h.crossings_includes h.isBlockAligned).2 ?_
  have hs : ({ g with
      coverChanges := g.coverChanges.push ⟨.crossings, r, g.objects.stop, g.cards.covered⟩
      crossings := ⟨g.crossings.starts.recover g.crossings.covered r none, r⟩ } :
      Generation).setup = g.setup := by
    simp only [setup, BlockTable.span_recover, BlockTable.size_recover]
  refine h.proceeds hs rfl rfl ?_ h.end_le rfl rfl (fun _ _ => rfl) fun ht => ?_
  · exact { h.within with
      sound := hs ▸ h.within.sound
      crossings_start := h.start_eq_bottom
      le_crossings := h.end_le
      crossings_le := h.stop_le
      dvd_crossings := h.dvd_stop }
  · exact ht.recover h.within h.start_eq_bottom h.dvd_stop h.top_le

/-- This is the one update that may not be possible. -/
theorem Underway.touchNew_doable {r : Region} (h : Underway g region (.touchNew r :: us)) :
    Doable g region us (.touchNew r) := by
  have hw := h.within
  obtain ⟨rfl, hlt⟩ := h.inOrder.1
  refine ends_touchNew.2 ⟨fun addrs _ => ?_, fun e he hc => ?_⟩
  · exact h.proceeds rfl rfl rfl { hw with } h.end_le rfl rfl
      (fun i _ => Memory.wordAt_touchAll ..) fun ht => ht.records
  · obtain ⟨addrs, ha⟩ := hc.exists_newTouches (h.touched _ (.head _)) h.start_eq_bottom.symm
      (Nat.le_trans hw.bottom_le_top hw.top_le) hlt (Nat.le_of_eq hw.bottom_eq.symm) h.stop_le
    cases ha.symm.trans he

theorem Underway.setBottom_doable {r : Region} (h : Underway g region (.setBottom r :: us)) :
    Doable g region us (.setBottom r) := by
  obtain rfl : r = region := h.inOrder.1
  have hstart := h.start_eq_bottom
  refine (ends_setBottom ⟨hstart ▸ h.within.bottom_le_top, h.top_le⟩).2 ?_
  refine h.proceeds rfl rfl rfl ?_ h.end_le hstart rfl (fun _ _ => rfl) fun ht => ht.records
  rw [hstart]
  exact { h.within with }

/-- Both side tables cover the region by then. -/
theorem Underway.setStop_doable {stop : Nat} (h : Underway g region (.setStop stop :: us)) :
    Doable g region us (.setStop stop) := by
  obtain ⟨rfl, hcards, hcrossings⟩ := h.inOrder.1
  have hcards : g.cards.covered = region := hcards
  have hcrossings : g.crossings.covered = region := hcrossings
  refine ends_modify.2 ?_
  refine h.proceeds rfl rfl rfl ?_ (Nat.le_refl _) rfl rfl (fun _ _ => rfl) fun ht => ht.records
  exact { h.within with
    dvd_stop := h.dvd_stop
    top_le := h.top_le
    cursor_le := Nat.le_trans h.within.cursor_le h.end_le
    le_cards := Nat.le_of_eq (by rw [hcards]; rfl)
    le_crossings := Nat.le_of_eq (by rw [hcrossings]; rfl) }

theorem Underway.advanceCursor_doable {stop : Nat}
    (h : Underway g region (.advanceCursor stop :: us)) :
    Doable g region us (.advanceCursor stop) := by
  obtain ⟨rfl, hstop⟩ := h.inOrder.1
  have hstop : region.stop = g.objects.stop := hstop
  refine ends_modify.2 ?_
  refine h.proceeds rfl rfl rfl ?_ h.end_le rfl rfl (fun _ _ => rfl) fun ht => ht.records
  exact { h.within with
    bottom_le_cursor := Nat.le_trans h.within.bottom_le_cursor (Nat.le_max_left ..)
    cursor_le := Nat.max_le.2 ⟨h.within.cursor_le, Nat.le_of_eq hstop⟩ }

theorem Underway.retreatCursor_doable {stop : Nat}
    (h : Underway g region (.retreatCursor stop :: us)) :
    Doable g region us (.retreatCursor stop) := by
  have hw := h.within
  obtain ⟨rfl, hstop⟩ := h.inOrder.1
  have hstop : region.stop = g.objects.stop := hstop
  refine ends_modify.2 ?_
  refine h.proceeds rfl rfl rfl ?_ h.end_le rfl rfl (fun _ _ => rfl) fun ht => ht.records
  exact { hw with
    bottom_le_cursor := Nat.le_min.2 ⟨hw.bottom_le_cursor,
      hstop ▸ Nat.le_trans hw.bottom_le_top hw.top_le⟩
    cursor_le := Nat.le_trans (Nat.min_le_left ..) hw.cursor_le }

/-- Each update can be done when its turn comes, unless memory cannot be touched. -/
theorem Underway.apply_ends (h : Underway g region (u :: us)) : Doable g region us u := by
  cases u with
  | mangle => exact h.mangle_doable
  | coverCards => exact h.coverCards_doable
  | coverCrossings => exact h.coverCrossings_doable
  | touchNew => exact h.touchNew_doable
  | setBottom => exact h.setBottom_doable
  | setStop => exact h.setStop_doable
  | advanceCursor => exact h.advanceCursor_doable
  | retreatCursor => exact h.retreatCursor_doable

/-! ## The commit -/

/-- After a granted commit all updates that follow it are left to be done. -/
theorem InLine.commit_underway (h : InLine g old) {bytes : Nat} {b : Backing}
    (hc : g.backing.commit bytes = (true, b)) (hf : g.followUps b = .ok us) :
    ∃ region, Underway { g with backing := b } region us ∧
      ({ g with backing := b } : Generation).setup = g.setup := by
  obtain ⟨region, b', hc', -, hlt, hbehind⟩ | ⟨b', hc', -⟩ := h.commit_cases bytes
  · obtain rfl : b' = b := (Prod.mk.inj (hc'.symm.trans hc)).2
    obtain ⟨fresh, hfresh, hf⟩ := bind_eq_ok_iff.1 hf
    obtain ⟨region', hregion, hf⟩ := bind_eq_ok_iff.1 hf
    obtain rfl : region' = region :=
      Except.ok.inj (hregion.symm.trans hbehind.committed.committedPart)
    obtain ⟨h₁, h₂⟩ := Region.ofBounds_eq_ok_iff.1 hfresh
    have hstart : fresh.start = g.objects.stop :=
      h₁.trans (h.backing_high.trans h.end_eq.symm)
    have hstop : fresh.stop = region'.stop := h₂.trans hbehind.committed.backing_high
    have hlt' : g.objects.stop < region'.stop := h.end_eq ▸ hlt
    have hs := hbehind.setup_eq
    have hw : Within { g with backing := b' } := { h.within with sound := hs ▸ h.sound }
    refine ⟨region', ⟨hbehind.committed, hw, Nat.le_of_lt hlt', ?_, fun r hr => ?_⟩, hs⟩
    · obtain rfl := Except.ok.inj hf
      split
      · exact ⟨⟨hstart, hstop, hlt'⟩, inOrder_updates hlt' _⟩
      · exact inOrder_updates hlt' _
    · obtain rfl := Except.ok.inj hf
      show g.config.touchCommitted = true
      cases ht : g.config.touchCommitted with
      | true => rfl
      | false => split at hr <;> simp [updates, ht] at hr
  · cases hc'.symm.trans hc

end Tenured.Generation
