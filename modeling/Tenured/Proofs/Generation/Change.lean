import Tenured.Generation.Allocation
import Tenured.Proofs.Generation.Layout
import Tenured.Proofs.TouchCursor

/-!
# Changes of a generation

All that operations do to the parts of a generation is made of five changes: its books are kept
(`Alike`), its committed region grows (`Grown`) or shrinks (`Shrunk`), a block is taken at the top
(`Carved`), and memory is touched ahead of use (`TouchedAhead`). Each says what becomes of every
part. Parts that are in line stay in line (`Changed.inLine`, `Changes.inLine`).
-/

namespace Tenured.Generation

open Object (wordSize)

/-- The generations differ at most in their books: the journal, the events, the figures, the totals
and the counts of commits and releases. -/
structure Alike (g g' : Generation) : Prop where
  setup_eq : g'.setup = g.setup
  base_eq : g'.backing.base = g.backing.base
  cards_eq : g'.cards = g.cards
  crossings_eq : g'.crossings = g.crossings
  objects_eq : g'.objects = g.objects
  cursor_eq : g'.cursor = g.cursor
  memory_eq : g'.memory = g.memory

/-- The memory in which what is new up to `stop` is mangled, if unused memory is. -/
def mangledUpTo (g : Generation) (stop : Nat) : Memory :=
  if g.config.mangleUnused then
    g.memory.fill (g.objects.stop / wordSize) ((stop - g.objects.stop) / wordSize)
      LinearSpace.manglePattern
  else g.memory

/-- Growing up to `stop` touches these addresses. -/
def TouchesUpTo (g : Generation) (stop : Nat) (addrs : List Nat) : Prop :=
  if g.config.touchCommitted then g.setup.touchPlan.touches g.objects.stop stop = .ok addrs
  else addrs = []

/-- The side tables cover a region from the same start, and the linear space extends over it. -/
structure Covers (g : Generation) (region : Region) (g' : Generation) : Prop where
  setup_eq : g'.setup = g.setup
  start_eq : region.start = g.objects.bottom
  dvd_stop : g.config.alignment ∣ region.stop
  high_eq : g'.backing.base.high = region.stop
  cards_eq : g'.cards = ⟨g.cards.cards.recover g.cards.covered region false, region⟩
  crossings_eq : g'.crossings = ⟨g.crossings.starts.recover g.crossings.covered region none, region⟩
  objects_eq : g'.objects = { g.objects with bottom := region.start, stop := region.stop }

/-- The committed part grew to a region. -/
structure Grown (g : Generation) (region : Region) (g' : Generation) : Prop
    extends Covers g region g' where
  stop_lt : g.objects.stop < region.stop
  stop_le : region.stop ≤ g.reserved.stop
  cursor_eq : g'.cursor =
    if g.config.touchCommitted then g.cursor.advance region.stop else g.cursor.retreat region.stop
  memory_eq : ∃ addrs, g.TouchesUpTo region.stop addrs ∧
    g'.memory = (g.mangledUpTo region.stop).touchAll addrs

/-- The committed part shrank to a region. -/
structure Shrunk (g : Generation) (region : Region) (g' : Generation) : Prop
    extends Covers g region g' where
  lt_stop : region.stop < g.objects.stop
  top_le : g.objects.top ≤ region.stop
  cursor_eq : g'.cursor = g.cursor.retreat region.stop
  memory_eq : g'.memory =
    (g.backing.base.giveBack (g.objects.stop - region.stop) g.toHost).memory

/-- Memory was touched ahead of an allocation, and the cursor moved. -/
structure TouchedAhead (g : Generation) (addr size : Nat) (g' : Generation) : Prop where
  setup_eq : g'.setup = g.setup
  base_eq : g'.backing.base = g.backing.base
  cards_eq : g'.cards = g.cards
  crossings_eq : g'.crossings = g.crossings
  objects_eq : g'.objects = g.objects
  follow_eq : ∃ touched, g.cursor.follow addr size g.objects.stop = .ok (g'.cursor, touched) ∧
    g'.memory = g.memory.touchAll touched.toList

/-- A block of so many words was taken at the top: it has a header, and its start is recorded. -/
structure Carved (g : Generation) (words : Nat) (g' : Generation) : Prop where
  minWords_le : Object.minWords ≤ words
  le_stop : g.objects.top + words * wordSize ≤ g.objects.stop
  setup_eq : g'.setup = g.setup
  base_eq : g'.backing.base = g.backing.base
  cards_eq : g'.cards = g.cards
  crossings_eq : g'.crossings =
    g.crossings.recordAt (g.crossings.starts.blockAt g.objects.top) g.objects.top
  objects_eq : g'.objects = { g.objects with top := g.objects.top + words * wordSize }
  cursor_eq : g'.cursor = g.cursor
  memory_eq : g'.memory = g.memory.store g.objects.top (words * wordSize)

/-- A change of the parts of a generation, and the blocks that it hands out. -/
inductive Changed (g : Generation) : List Object → Generation → Prop
  | alike {g' : Generation} (h : Alike g g') : Changed g [] g'
  | grown {region : Region} {g' : Generation} (h : Grown g region g') : Changed g [] g'
  | shrunk {region : Region} {g' : Generation} (h : Shrunk g region g') : Changed g [] g'
  | touchedAhead {addr size : Nat} {g' : Generation} (h : TouchedAhead g addr size g') :
    Changed g [] g'
  | carved {words : Nat} {g' : Generation} (h : Carved g words g') :
    Changed g [⟨g.objects.top, words * wordSize⟩] g'

/-- Changes one after another, and all blocks that they hand out, in order. -/
inductive Changes (g : Generation) : List Object → Generation → Prop
  | refl : Changes g [] g
  | tail {out out' : List Object} {g' g'' : Generation} (h : Changes g out g')
    (h' : Changed g' out' g'') : Changes g (out ++ out') g''

theorem Alike.refl (g : Generation) : Alike g g :=
  ⟨rfl, rfl, rfl, rfl, rfl, rfl, rfl⟩

theorem Alike.trans {g g' g'' : Generation} (h : Alike g g') (h' : Alike g' g'') : Alike g g'' :=
  ⟨h'.setup_eq.trans h.setup_eq, h'.base_eq.trans h.base_eq, h'.cards_eq.trans h.cards_eq,
    h'.crossings_eq.trans h.crossings_eq, h'.objects_eq.trans h.objects_eq,
    h'.cursor_eq.trans h.cursor_eq, h'.memory_eq.trans h.memory_eq⟩

/-! ## What stays -/

section Setup

variable {g g' : Generation} (h : g'.setup = g.setup)
include h

theorem config_eq_of_setup : g'.config = g.config := congrArg Setup.config h

theorem reserved_eq_of_setup : g'.reserved = g.reserved := congrArg Setup.reserved h

end Setup

/-! ## Parts stay in line -/

variable {g g' : Generation} {old region : Region}

/-- The committed region, and what covers it, stay. -/
structure Stays (g g' : Generation) : Prop where
  setup_eq : g'.setup = g.setup
  base_eq : g'.backing.base = g.backing.base
  cards_eq : g'.cards = g.cards
  covered_eq : g'.crossings.covered = g.crossings.covered
  bottom_eq : g'.objects.bottom = g.objects.bottom
  end_eq : g'.objects.stop = g.objects.stop

theorem Stays.refl (g : Generation) : Stays g g :=
  ⟨rfl, rfl, rfl, rfl, rfl, rfl⟩

theorem Stays.trans {g'' : Generation} (h : Stays g g') (h' : Stays g' g'') : Stays g g'' :=
  ⟨h'.setup_eq.trans h.setup_eq, h'.base_eq.trans h.base_eq, h'.cards_eq.trans h.cards_eq,
    h'.covered_eq.trans h.covered_eq, h'.bottom_eq.trans h.bottom_eq, h'.end_eq.trans h.end_eq⟩

theorem Stays.within (hs : Stays g g') (h : Within g)
    (htop : g.objects.bottom ≤ g'.objects.top ∧ g'.objects.top ≤ g.objects.stop ∧
      8 ∣ g'.objects.top)
    (hcursor : g.objects.bottom ≤ g'.cursor.next ∧ g'.cursor.next ≤ g.objects.stop) :
    Within g' where
  sound := hs.setup_eq ▸ h.sound
  bottom_eq := by rw [hs.bottom_eq, reserved_eq_of_setup hs.setup_eq]; exact h.bottom_eq
  dvd_stop := by rw [hs.end_eq, config_eq_of_setup hs.setup_eq]; exact h.dvd_stop
  bottom_le_top := by rw [hs.bottom_eq]; exact htop.1
  top_le := by rw [hs.end_eq]; exact htop.2.1
  dvd_top := htop.2.2
  bottom_le_cursor := by rw [hs.bottom_eq]; exact hcursor.1
  cursor_le := by rw [hs.end_eq]; exact hcursor.2
  cards_start := by rw [hs.cards_eq, hs.bottom_eq]; exact h.cards_start
  le_cards := by rw [hs.cards_eq, hs.end_eq]; exact h.le_cards
  crossings_start := by rw [hs.covered_eq, hs.bottom_eq]; exact h.crossings_start
  le_crossings := by rw [hs.covered_eq, hs.end_eq]; exact h.le_crossings
  crossings_le := by rw [hs.covered_eq, reserved_eq_of_setup hs.setup_eq]; exact h.crossings_le
  dvd_crossings := by
    rw [hs.covered_eq, config_eq_of_setup hs.setup_eq]; exact h.dvd_crossings

/-- Where the committed region stays, all that is to be seen to is the top and the cursor. -/
theorem Stays.inLine (hs : Stays g g') (h : InLine g region) (hw : Within g') :
    InLine g' region where
  sound := hs.setup_eq ▸ h.sound
  start_eq := by rw [reserved_eq_of_setup hs.setup_eq]; exact h.start_eq
  stop_le := by rw [reserved_eq_of_setup hs.setup_eq]; exact h.stop_le
  dvd_stop := by rw [config_eq_of_setup hs.setup_eq]; exact h.dvd_stop
  high_eq := by rw [hs.base_eq]; exact h.high_eq
  cards_eq := by rw [hs.cards_eq]; exact h.cards_eq
  crossings_eq := by rw [hs.covered_eq]; exact h.crossings_eq
  bottom_eq := by rw [hs.bottom_eq]; exact h.bottom_eq
  end_eq := by rw [hs.end_eq]; exact h.end_eq
  bottom_le_top := by rw [← h.bottom_eq, ← hs.bottom_eq]; exact hw.bottom_le_top
  top_le := by rw [← h.end_eq, ← hs.end_eq]; exact hw.top_le
  dvd_top := hw.dvd_top
  bottom_le_cursor := by rw [← h.bottom_eq, ← hs.bottom_eq]; exact hw.bottom_le_cursor
  cursor_le := by rw [← h.end_eq, ← hs.end_eq]; exact hw.cursor_le

theorem Alike.stays (ha : Alike g g') : Stays g g' :=
  ⟨ha.setup_eq, ha.base_eq, ha.cards_eq, by rw [ha.crossings_eq], by rw [ha.objects_eq],
    by rw [ha.objects_eq]⟩

theorem Alike.within (ha : Alike g g') (h : Within g) : Within g' := by
  refine ha.stays.within h ?_ ?_
  · rw [ha.objects_eq]; exact ⟨h.bottom_le_top, h.top_le, h.dvd_top⟩
  · rw [ha.cursor_eq]; exact ⟨h.bottom_le_cursor, h.cursor_le⟩

theorem Alike.inLine (ha : Alike g g') (h : InLine g region) : InLine g' region :=
  ha.stays.inLine h (ha.within h.within)

/-- Parts that cover a region are in line with it if it holds the top and the cursor. -/
theorem Covers.inLine (hc : Covers g region g') (h : InLine g old)
    (hstop : region.stop ≤ g.reserved.stop) (htop : g.objects.top ≤ region.stop)
    (hcursor : region.start ≤ g'.cursor.next ∧ g'.cursor.next ≤ region.stop) :
    InLine g' region where
  sound := hc.setup_eq ▸ h.sound
  start_eq := by
    rw [reserved_eq_of_setup hc.setup_eq, hc.start_eq, h.bottom_eq]; exact h.start_eq
  stop_le := by rw [reserved_eq_of_setup hc.setup_eq]; exact hstop
  dvd_stop := by rw [config_eq_of_setup hc.setup_eq]; exact hc.dvd_stop
  high_eq := hc.high_eq
  cards_eq := by rw [hc.cards_eq]
  crossings_eq := by rw [hc.crossings_eq]
  bottom_eq := by rw [hc.objects_eq]
  end_eq := by rw [hc.objects_eq]
  bottom_le_top := by
    rw [hc.objects_eq, hc.start_eq, h.bottom_eq]; exact h.bottom_le_top
  top_le := by rw [hc.objects_eq]; exact htop
  dvd_top := by rw [hc.objects_eq]; exact h.dvd_top
  bottom_le_cursor := hcursor.1
  cursor_le := hcursor.2

theorem Grown.inLine (hg : Grown g region g') (h : InLine g old) : InLine g' region := by
  have hs := hg.start_eq.trans h.bottom_eq
  have hlt := hg.stop_lt
  rw [h.end_eq] at hlt
  have := h.bottom_le_cursor
  have := h.cursor_le
  refine hg.toCovers.inLine h hg.stop_le (Nat.le_trans h.top_le (Nat.le_of_lt hlt)) ?_
  rw [hg.cursor_eq, hs]
  split
  · simp only [TouchCursor.advance]; omega
  · simp only [TouchCursor.retreat]; omega

theorem Shrunk.inLine (hs : Shrunk g region g') (h : InLine g old) : InLine g' region := by
  have hb := hs.start_eq.trans h.bottom_eq
  have hlt := hs.lt_stop
  rw [h.end_eq] at hlt
  have := h.bottom_le_cursor
  have := region.start_le_stop
  refine hs.toCovers.inLine h (Nat.le_trans (Nat.le_of_lt hlt) h.stop_le) hs.top_le ?_
  rw [hs.cursor_eq]
  simp only [TouchCursor.retreat]
  omega

section TouchedAhead

variable {addr size : Nat} (ht : TouchedAhead g addr size g')
include ht

theorem TouchedAhead.stays : Stays g g' :=
  ⟨ht.setup_eq, ht.base_eq, ht.cards_eq, by rw [ht.crossings_eq], by rw [ht.objects_eq],
    by rw [ht.objects_eq]⟩

theorem TouchedAhead.within (h : Within g) : Within g' := by
  obtain ⟨touched, hf, -⟩ := ht.follow_eq
  have hc := TouchCursor.Follows.of_follow h.sound.isPowerOfTwo_stride h.stop_lt h.cursor_le hf
  refine ht.stays.within h ?_ ?_
  · rw [ht.objects_eq]; exact ⟨h.bottom_le_top, h.top_le, h.dvd_top⟩
  · exact ⟨Nat.le_trans h.bottom_le_cursor hc.next_le, hc.le_stop⟩

theorem TouchedAhead.inLine (h : InLine g region) : InLine g' region :=
  ht.stays.inLine h (ht.within h.within)

end TouchedAhead

section Carved

variable {words : Nat} (hc : Carved g words g')
include hc

theorem Carved.stays : Stays g g' :=
  ⟨hc.setup_eq, hc.base_eq, hc.cards_eq, by rw [hc.crossings_eq]; rfl, by rw [hc.objects_eq],
    by rw [hc.objects_eq]⟩

theorem Carved.within (h : Within g) : Within g' := by
  have hle := hc.le_stop
  have := h.bottom_le_top
  have := h.dvd_top
  refine hc.stays.within h ?_ ?_
  · rw [hc.objects_eq]
    simp only [wordSize] at *
    omega
  · rw [hc.cursor_eq]; exact ⟨h.bottom_le_cursor, h.cursor_le⟩

theorem Carved.inLine (h : InLine g region) : InLine g' region :=
  hc.stays.inLine h (hc.within h.within)

end Carved

theorem Changed.inLine {out : List Object} (hc : Changed g out g') (h : InLine g old) :
    ∃ region, InLine g' region := by
  cases hc with
  | alike ha => exact ⟨old, ha.inLine h⟩
  | grown hg => exact ⟨_, hg.inLine h⟩
  | shrunk hs => exact ⟨_, hs.inLine h⟩
  | touchedAhead ht => exact ⟨old, ht.inLine h⟩
  | carved hc => exact ⟨old, hc.inLine h⟩

theorem Changed.setup_eq {out : List Object} (hc : Changed g out g') : g'.setup = g.setup := by
  cases hc with
  | alike h => exact h.setup_eq
  | grown h => exact h.setup_eq
  | shrunk h => exact h.setup_eq
  | touchedAhead h => exact h.setup_eq
  | carved h => exact h.setup_eq

namespace Changes

variable {out : List Object}

theorem single (h : Changed g out g') : Changes g out g' :=
  .tail .refl h

theorem trans {out' : List Object} {g'' : Generation} (h : Changes g out g')
    (h' : Changes g' out' g'') : Changes g (out ++ out') g'' := by
  induction h' with
  | refl => rwa [List.append_nil]
  | tail _ hc ih => rw [← List.append_assoc]; exact ih.tail hc

theorem setup_eq (h : Changes g out g') : g'.setup = g.setup := by
  induction h with
  | refl => rfl
  | tail _ hc ih => exact hc.setup_eq.trans ih

theorem inLine (hc : Changes g out g') (h : InLine g old) : ∃ region, InLine g' region := by
  induction hc with
  | refl => exact ⟨old, h⟩
  | tail _ hc ih => obtain ⟨_, ih⟩ := ih; exact hc.inLine ih

end Changes

end Tenured.Generation
