import Tenured.Generation.Basic
import Tenured.Proofs.BlockTable
import Tenured.Proofs.Config

/-!
# The layout of a generation

`Generation.setup` is what no operation of a generation changes, and `Setup.Sound` says that its
parts fit together. `Generation.InLine g region` says that the parts of `g` agree on a committed
region: the backing is committed up to its end, both side tables cover it, the linear space extends
over it, and the top and the touch cursor lie in it. `Generation.Within g` is what is left of that
while the parts follow a commit one after another: both side tables cover the linear space.
-/

namespace Tenured

theorem Region.eq_of_bounds {r r' : Region} (h : r.start = r'.start) (h' : r.stop = r'.stop) :
    r = r' := by
  cases r
  cases r'
  cases h
  cases h'
  rfl

namespace Generation

/-- What no operation changes. -/
structure Setup where
  id : Nat
  name : String
  level : Nat
  config : Config
  workers : Workers
  nodes : Nat
  reserved : Region
  lookup : Lookup
  mapping : Mapping
  /-- The bounds of the reservation, and by how much those that are shown differ from them. -/
  start : Nat
  stop : Nat
  shift : Nat
  cut : Nat
  alignment : Nat
  grants : Nat → Nat → Nat → Bool
  /-- The spans of the two side tables, and how many entries they have. -/
  cardSpan : Region
  cardCount : Nat
  crossingSpan : Region
  crossingCount : Nat
  stride : Nat
  lead : Nat

/-- What no operation changes of a generation. -/
def setup (g : Generation) : Setup where
  id := g.id
  name := g.name
  level := g.level
  config := g.config
  workers := g.workers
  nodes := g.nodes
  reserved := g.reserved
  lookup := g.lookup
  mapping := g.backing.base.mapping
  start := g.backing.base.start
  stop := g.backing.base.stop
  shift := g.backing.shift
  cut := g.backing.cut
  alignment := g.backing.base.alignment
  grants := g.backing.grants
  cardSpan := g.cards.cards.span
  cardCount := g.cards.cards.entries.size
  crossingSpan := g.crossings.starts.span
  crossingCount := g.crossings.starts.entries.size
  stride := g.cursor.stride
  lead := g.cursor.limit

namespace Setup

/-- The plan by which memory is touched as it is committed. -/
def touchPlan (s : Setup) : TouchPlan :=
  ⟨s.workers, s.stride⟩

/-- The parts that do not change fit together: the backing shows the reservation as it is, both side
tables span it, and it consists of whole alignment units. -/
structure Sound (s : Setup) : Prop where
  usable : s.config.Usable
  alignment_eq : s.alignment = s.config.alignment
  start_eq : s.start = s.reserved.start
  stop_eq : s.stop = s.reserved.stop
  shift_eq : s.shift = 0
  cut_eq : s.cut = 0
  dvd_start : s.config.alignment ∣ s.reserved.start
  dvd_stop : s.config.alignment ∣ s.reserved.stop
  stop_lt : s.reserved.stop < Word.limit
  maxSize_le : s.config.maxSize ≤ s.reserved.size
  cardSpan_eq : s.cardSpan = s.reserved
  cardCount_eq : s.cardCount = s.reserved.size / BlockTable.blockSize
  crossingSpan_eq : s.crossingSpan = s.reserved
  crossingCount_eq : s.crossingCount = s.reserved.size / BlockTable.blockSize
  isPowerOfTwo_stride : s.stride.isPowerOfTwo
  stride_lt : s.stride < Word.limit

namespace Sound

variable {s : Setup} (h : s.Sound)
include h

/-- What is a multiple of the alignment consists of whole pages. -/
theorem page_dvd {n : Nat} (hn : s.config.alignment ∣ n) : 4096 ∣ n :=
  Nat.dvd_trans h.usable.page_dvd_alignment hn

theorem maxSize_lt : s.config.maxSize < Word.limit := by
  have := h.maxSize_le
  have := h.stop_lt
  simp only [Region.size] at *
  omega

theorem alignment_lt : s.config.alignment < Word.limit :=
  Nat.lt_of_le_of_lt (Nat.le_of_dvd h.usable.maxSize_pos h.usable.dvd_maxSize) h.maxSize_lt

theorem page_dvd_start : 4096 ∣ s.reserved.start := h.page_dvd h.dvd_start

theorem page_dvd_stop : 4096 ∣ s.reserved.stop := h.page_dvd h.dvd_stop

end Sound

end Setup

/-- The backing is committed from its start up to the end of a region. -/
structure Committed (g : Generation) (region : Region) : Prop where
  sound : g.setup.Sound
  start_eq : region.start = g.reserved.start
  stop_le : region.stop ≤ g.reserved.stop
  dvd_stop : g.config.alignment ∣ region.stop
  high_eq : g.backing.base.high = region.stop

/-- The parts of a generation agree on its committed region. -/
structure InLine (g : Generation) (region : Region) : Prop extends Committed g region where
  cards_eq : g.cards.covered = region
  crossings_eq : g.crossings.covered = region
  bottom_eq : g.objects.bottom = region.start
  end_eq : g.objects.stop = region.stop
  bottom_le_top : region.start ≤ g.objects.top
  top_le : g.objects.top ≤ region.stop
  dvd_top : 8 ∣ g.objects.top
  bottom_le_cursor : region.start ≤ g.cursor.next
  cursor_le : g.cursor.next ≤ region.stop

/-- Both side tables cover the linear space, which holds the top and the cursor. -/
structure Within (g : Generation) : Prop where
  sound : g.setup.Sound
  bottom_eq : g.objects.bottom = g.reserved.start
  dvd_stop : g.config.alignment ∣ g.objects.stop
  bottom_le_top : g.objects.bottom ≤ g.objects.top
  top_le : g.objects.top ≤ g.objects.stop
  dvd_top : 8 ∣ g.objects.top
  bottom_le_cursor : g.objects.bottom ≤ g.cursor.next
  cursor_le : g.cursor.next ≤ g.objects.stop
  cards_start : g.cards.covered.start = g.objects.bottom
  le_cards : g.objects.stop ≤ g.cards.covered.stop
  crossings_start : g.crossings.covered.start = g.objects.bottom
  le_crossings : g.objects.stop ≤ g.crossings.covered.stop
  crossings_le : g.crossings.covered.stop ≤ g.reserved.stop
  dvd_crossings : g.config.alignment ∣ g.crossings.covered.stop

namespace Committed

variable {g : Generation} {region : Region} (h : Committed g region)
include h

theorem stop_lt : region.stop < Word.limit :=
  Nat.lt_of_le_of_lt h.stop_le h.sound.stop_lt

theorem page_dvd_start : 4096 ∣ region.start := by
  rw [h.start_eq]; exact h.sound.page_dvd_start

theorem page_dvd_stop : 4096 ∣ region.stop := h.sound.page_dvd h.dvd_stop

theorem dvd_start : g.config.alignment ∣ region.start := by
  rw [h.start_eq]; exact h.sound.dvd_start

theorem dvd_size : g.config.alignment ∣ region.size :=
  Nat.dvd_sub h.dvd_stop h.dvd_start

/-! ## What the parts show -/

theorem backing_alignment : g.backing.alignment = g.config.alignment := h.sound.alignment_eq

theorem backing_start : g.backing.start = region.start := by
  rw [Backing.start, h.start_eq, show g.backing.shift = 0 from h.sound.shift_eq]
  exact h.sound.start_eq

theorem backing_high : g.backing.high = region.stop := by
  rw [Backing.high, h.high_eq, show g.backing.shift = 0 from h.sound.shift_eq, Nat.add_zero]

theorem backing_stop : g.backing.stop = g.reserved.stop := by
  rw [Backing.stop, show g.backing.cut = 0 from h.sound.cut_eq]
  exact h.sound.stop_eq

theorem whole : g.backing.whole = .ok g.reserved := by
  rw [Backing.whole, Region.ofBounds_eq_ok_iff]
  exact ⟨h.start_eq.symm.trans h.backing_start.symm, h.backing_stop.symm⟩

theorem backing_committed : g.backing.committed = region.size := by
  rw [Backing.committed, Reservation.committed, h.high_eq, Region.size, h.start_eq]
  exact congrArg _ h.sound.start_eq

theorem backing_reserved : g.backing.reserved = .ok g.reserved.size := by
  rw [Backing.reserved, Word.sub_eq_ok_iff, h.backing_stop, h.backing_start, h.start_eq]
  exact ⟨g.reserved.start_le_stop, rfl⟩

theorem backing_left : g.backing.left = .ok (g.reserved.stop - region.stop) := by
  rw [Backing.left, h.backing_reserved]
  refine Word.sub_eq_ok_iff.2 ?_
  have := region.start_le_stop
  have := h.start_eq
  have := h.stop_le
  rw [h.backing_committed]
  simp only [Region.size]
  omega

theorem base_left : g.backing.base.left = g.reserved.stop - region.stop := by
  rw [Reservation.left, h.high_eq]
  exact congrArg (· - region.stop) h.sound.stop_eq

theorem committedPart : g.backing.committedPart = .ok region := by
  rw [Backing.committedPart, Region.ofBounds_eq_ok_iff]
  exact ⟨h.backing_start.symm, h.backing_high.symm⟩

end Committed

namespace InLine

variable {g : Generation} {region : Region} (h : InLine g region)
include h

theorem extent : g.objects.extent = .ok region := by
  rw [LinearSpace.extent, Region.ofBounds_eq_ok_iff]
  exact ⟨h.bottom_eq.symm, h.end_eq.symm⟩

theorem capacity : g.capacity = .ok region.size := by
  rw [Generation.capacity, LinearSpace.capacity, Word.sub_eq_ok_iff, h.bottom_eq, h.end_eq]
  exact ⟨region.start_le_stop, rfl⟩

theorem used : g.used = .ok (g.objects.top - region.start) := by
  rw [Generation.used, LinearSpace.used, Word.sub_eq_ok_iff, h.bottom_eq]
  exact ⟨h.bottom_le_top, rfl⟩

theorem within : Within g where
  sound := h.sound
  bottom_eq := h.bottom_eq.trans h.start_eq
  dvd_stop := h.end_eq ▸ h.dvd_stop
  bottom_le_top := h.bottom_eq ▸ h.bottom_le_top
  top_le := h.end_eq ▸ h.top_le
  dvd_top := h.dvd_top
  bottom_le_cursor := h.bottom_eq ▸ h.bottom_le_cursor
  cursor_le := h.end_eq ▸ h.cursor_le
  cards_start := by rw [h.cards_eq, h.bottom_eq]
  le_cards := Nat.le_of_eq (by rw [h.cards_eq, h.end_eq])
  crossings_start := by rw [h.crossings_eq, h.bottom_eq]
  le_crossings := Nat.le_of_eq (by rw [h.crossings_eq, h.end_eq])
  crossings_le := by rw [h.crossings_eq]; exact h.stop_le
  dvd_crossings := by rw [h.crossings_eq]; exact h.dvd_stop

end InLine

namespace Within

variable {g : Generation} (h : Within g)
include h

theorem stop_le : g.objects.stop ≤ g.reserved.stop :=
  Nat.le_trans h.le_crossings h.crossings_le

theorem stop_lt : g.objects.stop < Word.limit :=
  Nat.lt_of_le_of_lt h.stop_le h.sound.stop_lt

theorem page_dvd_bottom : 4096 ∣ g.objects.bottom :=
  h.bottom_eq ▸ h.sound.page_dvd_start

theorem dvd_bottom : 8 ∣ g.objects.bottom :=
  Nat.dvd_trans (by decide) h.page_dvd_bottom

theorem page_dvd_stop : 4096 ∣ g.objects.stop :=
  h.sound.page_dvd h.dvd_stop

theorem page_dvd_crossings : 4096 ∣ g.crossings.covered.stop :=
  h.sound.page_dvd h.dvd_crossings

theorem span_eq : g.crossings.starts.span = g.reserved :=
  h.sound.crossingSpan_eq

theorem span_start : g.crossings.starts.span.start = g.objects.bottom := by
  rw [h.span_eq, h.bottom_eq]

end Within

end Generation

end Tenured
