import Tenured.Generation.Build
import Tenured.Proofs.CardMarks
import Tenured.Proofs.CrossingMap
import Tenured.Proofs.Generation.Allocation
import Tenured.Proofs.LinearSpace
import Tenured.Proofs.Reservation

/-!
# A new generation

`Assembled` is what an attempt to build a generation from its parts says about them if it has a
result. The parts of a generation with a reservation of its own are in line from the start, nothing
has been handed out, and no commit is refused for which there is room (`Generation.create_new`).
-/

namespace Tenured

namespace Generation

open Attempt

variable {sys : AddressSpace} {s : Setting} {c : Config} {name : String} {level id : Nat}
  {parts : Parts} {g : Generation}

/-- How the parts of a new generation came about. -/
structure Assembled (s : Setting) (c : Config) (parts : Parts) (g : Generation)
    (committed : Region) : Prop where
  usable : c.Usable
  alignment_eq : parts.backing.alignment = c.alignment
  reserved_eq : ∃ reserved, parts.backing.reserved = .ok reserved ∧ c.maxSize ≤ reserved
  backing_eq : (commitInitial c parts.backing).outcome = .result g.backing
  whole_eq : g.backing.whole = .ok g.reserved
  committed_eq : g.backing.committedPart = .ok committed
  cards_eq : parts.cards.cover committed = .ok g.cards
  crossings_eq : ∃ t, CrossingMap.ofReserved g.reserved = .ok t ∧
    t.cover committed = .ok g.crossings
  setUp_eq : ({} : LinearSpace).setUp committed true c.mangleUnused
    (if c.touchCommitted then some ⟨g.workers, c.touchStride⟩ else none) s.host.memory =
      .ok (g.objects, g.memory)
  cursor_eq : TouchCursor.ofStart (if c.touchCommitted then committed.stop else committed.start)
    c.touchStride g.workers.count = .ok g.cursor
  config_eq : g.config = c
  lookup_eq : g.lookup = parts.lookup
  workers_eq : g.workers = Workers.ofCount (c.workerCount s.machine)
  nodes_eq : g.nodes = if c.perNode then c.nodeCount s.machine else 1
  figures_eq : g.figures.currentCapacity = committed.size ∧ g.spaceFigures.capacity = committed.size
  totals_eq : g.totals = {}
  events_eq : g.events = s.events

theorem checkConfig_usable (h : (checkConfig c).outcome = .result ()) : c.Usable := by
  have h := outcome_ofExcept.1 h
  cases hv : c.validate with
  | ok u => exact Config.validate_eq_ok hv
  | error e => rw [hv] at h; cases h

theorem checkBacking_result {v : Backing} (h : (checkBacking c v).outcome = .result ()) :
    v.alignment = c.alignment ∧ ∃ reserved, v.reserved = .ok reserved ∧ c.maxSize ≤ reserved := by
  unfold checkBacking at h
  obtain ⟨ha, h⟩ := outcome_unless.1 h
  obtain ⟨_, -, h⟩ := outcome_bind.1 h
  obtain ⟨reserved, hr, h⟩ := outcome_bind.1 h
  split at h
  · exact absurd h outcome_throw
  · rename_i hm
    exact ⟨Decidable.not_not.1 ha, reserved, outcome_lift.1 hr, Nat.le_of_not_lt hm⟩

theorem crossingsFor_result {r : Region} {t : CrossingMap}
    (h : (crossingsFor r).outcome = .result t) : CrossingMap.ofReserved r = .ok t := by
  unfold crossingsFor at h
  split at h
  · rename_i ht
    rw [ht, outcome_pure.1 h]
  · exact absurd h outcome_throw

theorem ofParts_assembled (h : (ofParts s c name level id parts).outcome = .result g) :
    ∃ committed, Assembled s c parts g committed := by
  unfold ofParts at h
  obtain ⟨_, hcheck, h⟩ := outcome_bind.1 h
  obtain ⟨_, hback, h⟩ := outcome_bind.1 h
  obtain ⟨backing, hcommit, h⟩ := outcome_bind.1 h
  obtain ⟨reserved, hwhole, h⟩ := outcome_bind.1 h
  obtain ⟨_, -, h⟩ := outcome_bind.1 h
  obtain ⟨t, hcross, h⟩ := outcome_bind.1 h
  obtain ⟨committed, hpart, h⟩ := outcome_bind.1 h
  obtain ⟨cards, hcards, h⟩ := outcome_bind.1 h
  obtain ⟨crossings, hcover, h⟩ := outcome_bind.1 h
  obtain ⟨⟨objects, memory⟩, hset, h⟩ := outcome_bind.1 h
  obtain ⟨cursor, hcursor, h⟩ := outcome_bind.1 h
  obtain ⟨ha, hr⟩ := checkBacking_result hback
  obtain rfl := outcome_pure.1 h
  exact ⟨committed, checkConfig_usable hcheck, ha, hr, hcommit, outcome_lift.1 hwhole,
    outcome_lift.1 hpart, outcome_lift.1 hcards, ⟨t, crossingsFor_result hcross,
    outcome_lift.1 hcover⟩, outcome_lift.1 hset, outcome_lift.1 hcursor, rfl, rfl, rfl, rfl,
    ⟨rfl, rfl⟩, rfl, rfl⟩

/-- The parts show one reservation of whole alignment units, and some of them are committed. -/
structure Parts.Fit (p : Parts) (r : Region) : Prop where
  shift_eq : p.backing.shift = 0
  cut_eq : p.backing.cut = 0
  start_eq : p.backing.base.start = r.start
  stop_eq : p.backing.base.stop = r.stop
  dvd_start : p.backing.alignment ∣ r.start
  dvd_stop : p.backing.alignment ∣ r.stop
  stop_lt : r.stop < Word.limit
  dvd_high : p.backing.alignment ∣ p.backing.base.high
  start_le_high : r.start ≤ p.backing.base.high
  high_le : p.backing.base.high ≤ r.stop
  cardSpan_eq : p.cards.cards.span = r
  cardCount_eq : p.cards.cards.entries.size = r.size / BlockTable.blockSize

/-- The initial commit raises the committed end to the initial size, if it is below. -/
theorem commitInitial_result {v v' : Backing} (hp : v.base.alignment.isPowerOfTwo)
    (hs : v.base.start ≤ v.base.high)
    (h : (commitInitial c v).outcome = .result v') :
    v'.shift = v.shift ∧ v'.cut = v.cut ∧ v'.grants = v.grants ∧
      c.initialSize ≤ v'.committed ∧ ∃ n, v.base.alignment ∣ n ∧ n ≤ v.base.left ∧
        v'.base = { v.base with high := v.base.high + n } := by
  unfold commitInitial at h
  split at h
  · rename_i hle
    obtain rfl := outcome_pure.1 h
    exact ⟨rfl, rfl, rfl, hle, 0, Nat.dvd_zero _, Nat.zero_le _, rfl⟩
  cases hg : v.granted? (c.initialSize - v.committed) with
  | none =>
    simp only [Backing.commit, hg, Bool.false_eq_true, if_false] at h
    exact absurd h outcome_throw
  | some base =>
    simp only [Backing.commit, hg, if_true] at h
    obtain rfl := outcome_pure.1 h
    obtain ⟨-, ⟨-, hd, hl⟩, rfl⟩ := (Backing.granted?_eq_some_iff hp).1 hg
    refine ⟨rfl, rfl, rfl, ?_, _, hd, hl, rfl⟩
    simp only [Backing.committed, Reservation.committed] at *
    omega

/-- What the initial commit leaves of parts that fit. -/
theorem Parts.Fit.commitInitial {r : Region} (hf : parts.Fit r) (hu : c.Usable)
    (ha : parts.backing.base.alignment = c.alignment) {b : Backing}
    (h : (Generation.commitInitial c parts.backing).outcome = .result b) :
    b.shift = 0 ∧ b.cut = 0 ∧ b.grants = parts.backing.grants ∧ c.initialSize ≤ b.committed ∧
    ∃ high, c.alignment ∣ high ∧ r.start ≤ high ∧ high ≤ r.stop ∧
      b.base = { parts.backing.base with high } := by
  have hs : parts.backing.base.start ≤ parts.backing.base.high :=
    hf.start_eq ▸ hf.start_le_high
  obtain ⟨hshift, hcut, hgrants, hinit, n, hd, hl, hbase⟩ :=
    commitInitial_result (ha ▸ hu.isPowerOfTwo_alignment) hs h
  refine ⟨hshift.trans hf.shift_eq, hcut.trans hf.cut_eq, hgrants, hinit, _, ?_, ?_, ?_, hbase⟩
  · exact Nat.dvd_add (ha ▸ hf.dvd_high) (ha ▸ hd)
  · have := hf.start_le_high
    omega
  · have := hf.high_le
    rw [Reservation.left, hf.stop_eq] at hl
    omega

namespace Assembled

variable {committed r : Region} (h : Assembled s c parts g committed) (hf : parts.Fit r)
include h hf

/-- What the initial commit leaves of the parts. -/
theorem backing_base : g.backing.shift = 0 ∧ g.backing.cut = 0 ∧
    g.backing.grants = parts.backing.grants ∧ c.initialSize ≤ g.backing.committed ∧
    ∃ high, c.alignment ∣ high ∧ r.start ≤ high ∧ high ≤ r.stop ∧
      g.backing.base = { parts.backing.base with high } :=
  hf.commitInitial h.usable h.alignment_eq h.backing_eq

theorem reserved_eq_region : g.reserved = r := by
  obtain ⟨hshift, hcut, -, -, high, -, -, -, hbase⟩ := h.backing_base hf
  obtain ⟨h₁, h₂⟩ := Region.ofBounds_eq_ok_iff.1 h.whole_eq
  rw [Backing.start, hshift, hbase, hf.start_eq] at h₁
  rw [Backing.stop, hcut, hbase, hf.stop_eq] at h₂
  exact Region.eq_of_bounds h₁ h₂

theorem committed_bounds : committed.start = r.start ∧ committed.stop ≤ r.stop ∧
    c.alignment ∣ committed.stop ∧ g.backing.base.high = committed.stop ∧
    c.initialSize ≤ committed.size := by
  obtain ⟨hshift, -, -, hinit, high, hd, hlow, hhigh, hbase⟩ := h.backing_base hf
  obtain ⟨h₁, h₂⟩ := Region.ofBounds_eq_ok_iff.1 h.committed_eq
  rw [Backing.start, hshift, hbase, hf.start_eq] at h₁
  rw [Backing.high, hshift, hbase] at h₂
  rw [Backing.committed, Reservation.committed, hbase, hf.start_eq] at hinit
  simp only [Nat.add_zero] at h₁ h₂
  refine ⟨h₁, h₂ ▸ hhigh, h₂ ▸ hd, ?_, ?_⟩
  · rw [hbase, h₂]
  · rw [Region.size, h₁, h₂]; exact hinit

theorem crossings_eq_recover : g.crossings =
    ⟨(BlockTable.ofSpan r none).recover (.emptyAt r.start) committed none, committed⟩ := by
  obtain ⟨t, ht, hc⟩ := h.crossings_eq
  obtain ⟨-, rfl⟩ := CrossingMap.ofReserved_eq_ok ht
  obtain ⟨-, -, hc⟩ := CrossingMap.cover_eq_ok hc
  rw [hc, h.reserved_eq_region hf]

theorem sound : g.setup.Sound := by
  obtain ⟨hshift, hcut, -, -, high, -, -, -, hbase⟩ := h.backing_base hf
  have hr := h.reserved_eq_region hf
  have hc := h.config_eq
  have ha := h.alignment_eq
  obtain ⟨-, hcards⟩ := CardMarks.cover_eq_ok h.cards_eq
  have hcross := h.crossings_eq_recover hf
  obtain ⟨hp, hl, -, hstride⟩ := TouchCursor.ofStart_eq_ok h.cursor_eq
  obtain ⟨reserved, hres, hmax⟩ := h.reserved_eq
  refine ⟨?_, ?_, ?_, ?_, hshift, hcut, ?_, ?_, ?_, ?_, ?_, ?_, ?_, ?_, ?_, ?_⟩
  · show g.config.Usable
    rw [hc]; exact h.usable
  · show g.backing.base.alignment = g.config.alignment
    rw [hbase, hc]; exact ha
  · show g.backing.base.start = g.reserved.start
    rw [hbase, hr]; exact hf.start_eq
  · show g.backing.base.stop = g.reserved.stop
    rw [hbase, hr]; exact hf.stop_eq
  · show g.config.alignment ∣ g.reserved.start
    rw [hc, hr, ← ha]; exact hf.dvd_start
  · show g.config.alignment ∣ g.reserved.stop
    rw [hc, hr, ← ha]; exact hf.dvd_stop
  · show g.reserved.stop < Word.limit
    rw [hr]; exact hf.stop_lt
  · show g.config.maxSize ≤ g.reserved.size
    have := (Word.sub_eq_ok_iff.1 hres).2
    rw [Backing.stop, Backing.start, hf.cut_eq, hf.shift_eq, hf.stop_eq, hf.start_eq] at this
    rw [hc, hr, Region.size]
    omega
  · show g.cards.cards.span = g.reserved
    rw [hcards, hr]; simp [hf.cardSpan_eq]
  · show g.cards.cards.entries.size = g.reserved.size / BlockTable.blockSize
    rw [hcards, hr]; simp [hf.cardCount_eq]
  · show g.crossings.starts.span = g.reserved
    rw [hcross, hr]; simp [BlockTable.ofSpan]
  · show g.crossings.starts.entries.size = g.reserved.size / BlockTable.blockSize
    rw [hcross, hr]; simp [BlockTable.ofSpan]
  · show g.cursor.stride.isPowerOfTwo
    rw [hstride]; exact hp
  · show g.cursor.stride < Word.limit
    rw [hstride]; exact hl

omit hf in
theorem objects_eq :
    g.objects = ⟨committed.start, committed.start, committed.stop, committed.start⟩ :=
  LinearSpace.setUp_clear h.setUp_eq

theorem inLine : InLine g committed := by
  have hr := h.reserved_eq_region hf
  have hc := h.config_eq
  have ha := h.alignment_eq
  obtain ⟨hstart, hstop, hd, hhigh, -⟩ := h.committed_bounds hf
  obtain ⟨-, -, hnext, -⟩ := TouchCursor.ofStart_eq_ok h.cursor_eq
  have hle := committed.start_le_stop
  have ho := h.objects_eq
  refine ⟨⟨h.sound hf, ?_, ?_, ?_, hhigh⟩, ?_, ?_, ?_, ?_, ?_, ?_, ?_, ?_, ?_⟩
  · rw [hr, hstart]
  · rw [hr]; exact hstop
  · rw [hc]; exact hd
  · rw [(CardMarks.cover_eq_ok h.cards_eq).2]
  · rw [h.crossings_eq_recover hf]
  · rw [ho]
  · rw [ho]
  · exact Nat.le_of_eq (by rw [ho])
  · rw [ho]; exact hle
  · have hd := (h.sound hf).page_dvd_start
    have hr' : g.setup.reserved.start = committed.start := by rw [hstart, ← hr]; rfl
    rw [ho, ← hr']
    exact Nat.dvd_trans (by decide : 8 ∣ 4096) hd
  · rw [hnext]; split <;> omega
  · rw [hnext]; split <;> omega

omit hf in
theorem top_eq : g.objects.top = g.objects.bottom := by
  rw [h.objects_eq]

/-- No start is recorded yet. -/
theorem entry_eq (k : Nat) : g.crossings.entry k = none := by
  rw [h.crossings_eq_recover hf]
  exact BlockTable.get?_recover_none (CrossingMap.entry_ofSpan r r) _ _ k

end Assembled

/-- The reservation is the generation's own: it has the maximum size, and no commit is refused for
which there is room. -/
structure Setup.Own (s : Setup) : Prop where
  size_eq : s.reserved.size = s.config.maxSize
  grants_eq : ∀ n m b, s.grants n m b = true
  lookup_eq : s.lookup = .byCrossings
  workers_eq : ∃ n, s.workers = Workers.ofCount n

/-- A new generation. -/
structure New (c : Config) (g : Generation) (region : Region) : Prop extends InLine g region where
  own : g.setup.Own
  config_eq : g.config = c
  top_eq : g.objects.top = g.objects.bottom
  initialSize_le : c.initialSize ≤ region.size
  entry_eq : ∀ k, g.crossings.entry k = none

/-- Growth that touches nothing and provides for no nodes asks for nothing. -/
theorem New.canGrow_of_false {region : Region} (h : New c g region)
    (ht : c.touchCommitted = false) (hn : c.perNode = false) : g.setup.CanGrow :=
  Setup.canGrow_of_false ((congrArg Config.touchCommitted h.config_eq).trans ht)
    ((congrArg Config.perNode h.config_eq).trans hn)

theorem outcome_settingUp {α : Type} {what : String} {x : Attempt α} {a : α} :
    (settingUp what x).outcome = .result a ↔ x.outcome = .result a := by
  simp only [outcome_eq_result_iff, settingUp, ExceptT.run]
  rcases x with e | e | b
  · exact Iff.rfl
  · exact ⟨nofun, nofun⟩
  · exact Iff.rfl

/-- A reservation without anything committed, and cards for all of it. -/
theorem Parts.Fit.of_reserve {size alignment : Nat} {base : Reservation} {heap : Region}
    (h : (Reservation.reserve sys size alignment).outcome = .result base)
    (h₁ : heap.start = base.start) (h₂ : heap.stop = base.stop) :
    Parts.Fit { backing := { base }, cards := ⟨.ofSpan heap false, .emptyAt heap.start⟩ } heap := by
  obtain ⟨hp, hds, ha, hd, hstop, hlt, hhigh, -⟩ := Reservation.reserve_result h
  refine ⟨rfl, rfl, h₁.symm, h₂.symm, ?_, ?_, h₂ ▸ hlt, ?_, ?_, ?_, rfl, Array.size_replicate⟩
  · show base.alignment ∣ heap.start
    rw [h₁, ha]; exact hd
  · show base.alignment ∣ heap.stop
    rw [h₂, ha, hstop]; exact Nat.dvd_add hd hds
  · show base.alignment ∣ base.high
    rw [ha, hhigh]; exact hd
  · show heap.start ≤ base.high
    omega
  · show base.high ≤ heap.stop
    omega

/-- How a new generation with a reservation of its own came about. -/
theorem create_assembled (h : (create sys s c name level id).outcome = .result g) :
    ∃ base heap committed j,
      (Reservation.reserve sys c.maxSize c.alignment).outcome = .result base ∧
      heap.start = base.start ∧ heap.stop = base.stop ∧
      Parts.Fit { backing := { base }, cards := ⟨.ofSpan heap false, .emptyAt heap.start⟩ } heap ∧
      Assembled { s with host := { s.host with journal := j } } c
        { backing := { base }, cards := ⟨.ofSpan heap false, .emptyAt heap.start⟩ } g
        committed := by
  unfold create at h
  obtain ⟨_, -, h⟩ := outcome_bind.1 h
  obtain ⟨base, hbase, h⟩ := outcome_bind.1 h
  obtain ⟨heap, hheap, h⟩ := outcome_bind.1 h
  obtain ⟨cards, hcards, h⟩ := outcome_bind.1 h
  have hbase := outcome_settingUp.1 hbase
  obtain ⟨h₁, h₂⟩ := Region.ofBounds_eq_ok_iff.1 (outcome_lift.1 hheap)
  obtain ⟨-, rfl⟩ := CardMarks.ofHeap_eq_ok (outcome_ofExcept.1 (outcome_settingUp.1 hcards))
  obtain ⟨committed, hasm⟩ := ofParts_assembled h
  exact ⟨base, heap, committed, _, hbase, h₁, h₂, .of_reserve hbase h₁ h₂, hasm⟩

theorem create_new (h : (create sys s c name level id).outcome = .result g) :
    ∃ region, New c g region := by
  obtain ⟨base, heap, committed, _, hbase, h₁, h₂, hf, hasm⟩ := create_assembled h
  obtain ⟨-, -, -, -, hstop, -⟩ := Reservation.reserve_result hbase
  obtain ⟨-, -, hgrants, -, -⟩ := hasm.backing_base hf
  have hr := hasm.reserved_eq_region hf
  refine ⟨committed, hasm.inLine hf, ⟨?_, ?_, hasm.lookup_eq, _, hasm.workers_eq⟩,
    hasm.config_eq, hasm.top_eq, (hasm.committed_bounds hf).2.2.2.2, hasm.entry_eq hf⟩
  · show g.reserved.size = g.config.maxSize
    rw [hr, hasm.config_eq, Region.size]
    omega
  · intro n m b
    show g.backing.grants n m b = true
    rw [hgrants]

end Generation

end Tenured
