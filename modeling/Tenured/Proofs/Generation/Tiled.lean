import Tenured.Proofs.CrossingMap
import Tenured.Proofs.Generation.Operation

/-!
# The blocks handed out

`Marked g out R` says that the blocks `out` lie one after another from the bottom to the top, that
their headers hold their sizes, and that the crossing map records the starts of which `R` holds,
among them theirs. `Tiled g out` says that these are all. Every change of the parts of a generation
keeps what lies below the top (`Changed.keeps`), so every change keeps the blocks tiled, and so does
every run (`Run.tiled`).
-/

namespace Tenured.Generation

open Object (wordSize)

variable {g g' : Generation} {old region : Region} {words : Nat} {out out' : List Object}

/-- Headers below an address depend on the words below it only. -/
theorem headers_of_wordAt {m m' : Memory} {start stop : Nat} (hm : Object.Headers m out)
    (ht : Object.Tiles start stop out) (hs : 8 ∣ start)
    (hw : ∀ i, i < stop / 8 → m'.wordAt i = m.wordAt i) : Object.Headers m' out := by
  intro o ho
  have hd := ht.dvd_addr hs ho
  have hb := ht.bounds ho
  have := (ht.allowed ho).1
  have : 8 ≤ Object.minSize := by decide
  rw [← hm o ho, Memory.load_of_dvd hd, Memory.load_of_dvd hd]
  exact hw _ (by omega)

/-! ## Blocks among recorded starts -/

/-- The blocks lie one after another from the bottom to the top, their headers hold their sizes, and
the crossing map records the starts of which `R` holds, among them theirs. -/
structure Marked (g : Generation) (out : List Object) (R : Nat → Prop) : Prop where
  tiles : Object.Tiles g.objects.bottom g.objects.top out
  headers : Object.Headers g.memory out
  records : g.crossings.Records R
  starts : ∀ o ∈ out, R o.addr
  covered : ∀ addr, R addr → addr ∈ g.crossings.covered

namespace Marked

variable {R : Nat → Prop} (ht : Marked g out R) (h : Within g)
include ht h

theorem headers_of_keeps (hk : Keeps g g') : Object.Headers g'.memory out :=
  headers_of_wordAt ht.headers ht.tiles h.dvd_bottom hk.wordAt_eq

theorem span_start_le {addr : Nat} (ha : R addr) : g.crossings.starts.span.start ≤ addr := by
  rw [h.span_start, ← h.crossings_start]
  exact (ht.covered addr ha).1

/-- The blocks stay as they are where the bottom, the top, what lies below it and the crossing map
stay. -/
theorem of_keeps (hk : Keeps g g') (hb : g'.objects.bottom = g.objects.bottom)
    (ho : g'.objects.top = g.objects.top) (hc : g'.crossings = g.crossings) : Marked g' out R :=
  ⟨by rw [hb, ho]; exact ht.tiles, ht.headers_of_keeps h hk, hc ▸ ht.records, ht.starts,
    hc ▸ ht.covered⟩

/-- A map that covers another region from the same start forgets the starts beyond its end. -/
theorem recover (hs : region.start = g.objects.bottom) (hd : g.config.alignment ∣ region.stop) :
    CrossingMap.Records ⟨g.crossings.starts.recover g.crossings.covered region none, region⟩
      fun addr => R addr ∧ addr < region.stop := by
  have hd₁ := h.page_dvd_bottom
  have hd₂ := h.page_dvd_crossings
  have hd₃ := h.sound.page_dvd hd
  refine ht.records.recover ?_ ?_ ?_ ?_ fun addr ha => ?_
  · exact Nat.le_of_eq (by rw [h.span_start, h.crossings_start])
  · rw [h.crossings_start, hs]
  · rw [h.span_start]
    exact Nat.dvd_trans (by decide) (Nat.dvd_sub hd₂ hd₁)
  · rw [h.span_start]
    exact Nat.dvd_trans (by decide) (Nat.dvd_sub hd₃ hd₁)
  · exact ⟨ht.span_start_le h ha, (ht.covered addr ha).2⟩

omit h in
/-- All blocks start in a region that holds the top. -/
theorem starts_below (htop : g.objects.top ≤ region.stop) {o : Object} (ho : o ∈ out) :
    o.addr < region.stop := by
  have := ht.tiles.bounds ho
  have := (ht.tiles.allowed ho).1
  have := Object.minSize_pos
  omega

/-- The blocks stay where the committed part changes above them. -/
theorem covers (hc : Covers g region g') (hk : Keeps g g') (htop : g.objects.top ≤ region.stop) :
    Marked g' out fun addr => R addr ∧ addr < region.stop := by
  refine ⟨?_, ht.headers_of_keeps h hk, ?_, fun o ho => ⟨ht.starts o ho, ?_⟩, ?_⟩
  · rw [hc.objects_eq, hc.start_eq]
    exact ht.tiles
  · rw [hc.crossings_eq]
    exact ht.recover h hc.start_eq hc.dvd_stop
  · exact ht.starts_below htop ho
  · rintro addr ⟨ha, hlt⟩
    rw [hc.crossings_eq]
    refine ⟨?_, hlt⟩
    rw [hc.start_eq, ← h.crossings_start]
    exact (ht.covered addr ha).1

/-- A start that is covered, and a multiple of the word size above the bottom, joins the recorded
ones. -/
theorem recordAt {addr : Nat} (hc : addr ∈ g.crossings.covered)
    (hd : 8 ∣ addr - g.objects.bottom) :
    (g.crossings.recordAt (g.crossings.starts.blockAt addr) addr).Records
      fun a => R a ∨ a = addr := by
  have hspan := h.span_eq
  have hstart := h.span_start
  have hlow : g.crossings.starts.span.start ≤ addr := by
    rw [hstart, ← h.crossings_start]
    exact hc.1
  have hk := BlockTable.blockAt_lt
    (show addr < g.crossings.starts.span.stop by
      rw [hspan]; exact Nat.lt_of_lt_of_le hc.2 h.crossings_le) hlow
    (hspan ▸ Nat.dvd_trans (by decide) (Nat.dvd_sub h.sound.page_dvd_stop h.sound.page_dvd_start))
  have hcount : g.crossings.starts.entries.size = g.reserved.size / BlockTable.blockSize :=
    h.sound.crossingCount_eq
  rw [hspan, ← hcount] at hk
  exact ht.records.recordAt hlow (hstart ▸ hd) hk

theorem carved (hc : Carved g words g') :
    Marked g' (out ++ [⟨g.objects.top, words * wordSize⟩]) fun a => R a ∨ a = g.objects.top := by
  have hmin : Object.minSize ≤ words * wordSize := Nat.mul_le_mul_right _ hc.minWords_le
  have hd : 8 ∣ words * wordSize := Nat.dvd_mul_left ..
  have htop : g.objects.top ∈ g.crossings.covered := by
    have := hc.le_stop
    have := h.le_crossings
    have := Object.minSize_pos
    exact ⟨h.crossings_start ▸ h.bottom_le_top, by omega⟩
  constructor
  · rw [hc.objects_eq]
    exact ht.tiles.concat hmin hd
  · intro o ho
    rcases List.mem_append.1 ho with ho | ho
    · exact ht.headers_of_keeps h (hc.keeps h.dvd_top) o ho
    · obtain rfl := List.mem_singleton.1 ho
      rw [Memory.load_of_dvd h.dvd_top, hc.memory_eq, Memory.store_of_dvd h.dvd_top,
        Memory.wordAt_setWord, if_pos rfl]
  · rw [hc.crossings_eq]
    exact ht.recordAt h htop (Nat.dvd_sub h.dvd_top h.dvd_bottom)
  · intro o ho
    rcases List.mem_append.1 ho with ho | ho
    · exact .inl (ht.starts o ho)
    · exact .inr (by rw [List.mem_singleton.1 ho])
  · rw [hc.crossings_eq]
    rintro a (ha | rfl)
    · exact ht.covered a ha
    · exact htop

/-- A store into an object, after its header, changes no header. -/
theorem store {o : Object} (ho : o ∈ out) {addr : Nat} (hlow : o.addr + wordSize ≤ addr)
    (hhigh : addr + wordSize ≤ o.addr + o.size) (w : Nat) :
    Marked { g with memory := g.memory.store addr w } out R := by
  refine ⟨ht.tiles, fun o' ho' => ?_, ht.records, ht.starts, ht.covered⟩
  have hd := ht.tiles.dvd_addr h.dvd_bottom ho
  have hd' := ht.tiles.dvd_addr h.dvd_bottom ho'
  have hsize := (ht.tiles.allowed ho).2
  -- The header of an object does not lie inside another one.
  have hout : o'.addr ≤ o.addr ∨ o.addr + o.size ≤ o'.addr := by
    rcases Nat.lt_or_ge o.addr o'.addr with hlt | hge
    · rcases Nat.lt_or_ge o'.addr (o.addr + o.size) with hin | hge
      · have := ht.tiles.eq_of_addr_holds ho ho' ⟨Nat.le_of_lt hlt, hin⟩
        rw [this] at hlt
        exact absurd hlt (Nat.lt_irrefl _)
      · exact .inr hge
    · exact .inl hge
  simp only [wordSize] at hlow hhigh
  rw [← ht.headers o' ho', Memory.load_of_dvd hd', Memory.load_of_dvd hd']
  refine Memory.wordAt_store_of_ne (by omega) ?_
  rcases Decidable.em (8 ∣ addr) with hda | hda
  · exact .inl hda
  · exact .inr (by omega)

end Marked

/-- Every change keeps the blocks among the recorded starts, with those that it hands out. It
records no start but theirs. -/
theorem Changed.marked {R : Nat → Prop} (hc : Changed g out' g') (h : InLine g old)
    (ht : Marked g out R) : ∃ R', Marked g' (out ++ out') R' ∧
      ∀ addr, R' addr → R addr ∨ ∃ o ∈ out', o.addr = addr := by
  have hw := h.within
  have hk := hc.keeps h
  cases hc with
  | alike ha =>
    rw [List.append_nil]
    exact ⟨R, ht.of_keeps hw hk (by rw [ha.objects_eq]) (by rw [ha.objects_eq]) ha.crossings_eq,
      fun _ => .inl⟩
  | grown hg =>
    rw [List.append_nil]
    exact ⟨_, ht.covers hw hg.toCovers hk (Nat.le_trans hw.top_le (Nat.le_of_lt hg.stop_lt)),
      fun _ ha => .inl ha.1⟩
  | shrunk hs =>
    rw [List.append_nil]
    exact ⟨_, ht.covers hw hs.toCovers hk hs.top_le, fun _ ha => .inl ha.1⟩
  | touchedAhead hta =>
    rw [List.append_nil]
    exact ⟨R, ht.of_keeps hw hk (by rw [hta.objects_eq]) (by rw [hta.objects_eq])
      hta.crossings_eq, fun _ => .inl⟩
  | carved hc =>
    exact ⟨_, ht.carved hw hc, fun _ ha => ha.imp_right fun he => ⟨_, .head _, he.symm⟩⟩

theorem Changes.marked {R : Nat → Prop} (hc : Changes g out' g') (h : InLine g old)
    (ht : Marked g out R) : ∃ R', Marked g' (out ++ out') R' := by
  induction hc with
  | refl => exact ⟨R, by rwa [List.append_nil]⟩
  | tail hc hlast ih =>
    obtain ⟨region, hin⟩ := hc.inLine h
    obtain ⟨_, ht'⟩ := ih
    obtain ⟨R', hlast, -⟩ := hlast.marked hin ht'
    exact ⟨R', by rwa [← List.append_assoc]⟩

/-! ## The blocks stay tiled -/

/-- The blocks lie one after another from the bottom to the top, their headers hold their sizes, and
the crossing map records their starts. -/
structure Tiled (g : Generation) (out : List Object) : Prop where
  tiles : Object.Tiles g.objects.bottom g.objects.top out
  headers : Object.Headers g.memory out
  records : g.crossings.RecordsObjects out

/-- Where the blocks are tiled, no other start is recorded. -/
theorem Tiled.marked (ht : Tiled g out) (h : Within g) :
    Marked g out fun addr => ∃ o ∈ out, o.addr = addr := by
  refine ⟨ht.tiles, ht.headers, ht.records, fun o ho => ⟨o, ho, rfl⟩, ?_⟩
  rintro _ ⟨o, ho, rfl⟩
  have := ht.tiles.bounds ho
  have := (ht.tiles.allowed ho).1
  have := Object.minSize_pos
  have := h.top_le
  have := h.le_crossings
  rw [Region.mem_def, h.crossings_start]
  omega

theorem Marked.tiled {R : Nat → Prop} (ht : Marked g out R)
    (hR : ∀ addr, R addr → ∃ o ∈ out, o.addr = addr) : Tiled g out :=
  ⟨ht.tiles, ht.headers, ht.records.congr fun addr =>
    ⟨hR addr, fun ⟨o, ho, he⟩ => he ▸ ht.starts o ho⟩⟩

/-- The blocks stay tiled where the bottom, the top and what lies below it stay, and the starts stay
recorded. -/
theorem Tiled.of_keeps (ht : Tiled g out) (h : Within g) (hk : Keeps g g')
    (hb : g'.objects.bottom = g.objects.bottom) (ho : g'.objects.top = g.objects.top)
    (hr : g'.crossings.RecordsObjects out) : Tiled g' out :=
  ⟨by rw [hb, ho]; exact ht.tiles, (ht.marked h).headers_of_keeps h hk, hr⟩

/-- The starts stay recorded by a map that covers another region from the same start, if all blocks
lie in it. -/
theorem Tiled.recover (ht : Tiled g out) (h : Within g) (hs : region.start = g.objects.bottom)
    (hd : g.config.alignment ∣ region.stop) (htop : g.objects.top ≤ region.stop) :
    CrossingMap.RecordsObjects
      ⟨g.crossings.starts.recover g.crossings.covered region none, region⟩ out := by
  refine ((ht.marked h).recover h hs hd).congr fun addr => ⟨And.left, ?_⟩
  rintro ⟨o, ho, rfl⟩
  exact ⟨⟨o, ho, rfl⟩, (ht.marked h).starts_below htop ho⟩

theorem Tiled.carved (ht : Tiled g out) (h : Within g) (hc : Carved g words g') :
    Tiled g' (out ++ [⟨g.objects.top, words * wordSize⟩]) := by
  refine ((ht.marked h).carved h hc).tiled ?_
  rintro addr (⟨o, ho, rfl⟩ | rfl)
  · exact ⟨o, List.mem_append_left _ ho, rfl⟩
  · exact ⟨_, List.mem_append_right _ (.head _), rfl⟩

theorem Tiled.touchedAhead {addr size : Nat} (ht : Tiled g out) (h : Within g)
    (hta : TouchedAhead g addr size g') : Tiled g' out :=
  ht.of_keeps h hta.keeps (by rw [hta.objects_eq]) (by rw [hta.objects_eq])
    (hta.crossings_eq ▸ ht.records)

/-- A store into an object, after its header, changes no header. -/
theorem Tiled.store (ht : Tiled g out) (h : Within g) {o : Object} (ho : o ∈ out) {addr : Nat}
    (hlow : o.addr + wordSize ≤ addr) (hhigh : addr + wordSize ≤ o.addr + o.size) (w : Nat) :
    Tiled { g with memory := g.memory.store addr w } out :=
  ((ht.marked h).store h ho hlow hhigh w).tiled fun _ ha => ha

/-- Every change keeps the blocks tiled, with those that it hands out. -/
theorem Changed.tiled (hc : Changed g out' g') (h : InLine g old) (ht : Tiled g out) :
    Tiled g' (out ++ out') := by
  obtain ⟨R, ht', hR⟩ := hc.marked h (ht.marked h.within)
  refine ht'.tiled fun addr ha => ?_
  rcases hR addr ha with ⟨o, ho, he⟩ | ⟨o, ho, he⟩
  · exact ⟨o, List.mem_append_left _ ho, he⟩
  · exact ⟨o, List.mem_append_right _ ho, he⟩

theorem Changes.tiled (hc : Changes g out' g') (h : InLine g old) (ht : Tiled g out) :
    Tiled g' (out ++ out') := by
  induction hc with
  | refl => rwa [List.append_nil]
  | tail hc hlast ih =>
    obtain ⟨region, hin⟩ := hc.inLine h
    rw [← List.append_assoc]
    exact hlast.tiled hin ih

variable {g₀ : Generation} {ops : List Operation}

/-- The blocks that a run handed out are tiled after it. -/
theorem Run.tiled (h : Run g₀ ops out g) (h₀ : InLine g₀ old) (ht : Tiled g₀ []) : Tiled g out := by
  induction h with
  | start => exact ht
  | call hrun hr ih =>
    obtain ⟨region, hin⟩ := hrun.inLine h₀
    exact ((Operation.run_ends _ hin).of_ok hr).changes.tiled hin ih
  | store hrun ho hlow hhigh w ih =>
    obtain ⟨region, hin⟩ := hrun.inLine h₀
    exact ih.store hin.within ho hlow hhigh w

/-- Where nothing has been handed out, there are no blocks. -/
theorem tiled_nil (ht : g.objects.top = g.objects.bottom)
    (he : ∀ k, g.crossings.entry k = none) : Tiled g [] := by
  refine ⟨ht ▸ .nil, nofun, fun k offset hk => ?_, fun _ ha => ?_⟩
  · rw [he] at hk
    cases hk
  · obtain ⟨_, ho, -⟩ := ha
    cases ho

/-- Nothing has been handed out of a new generation. -/
theorem New.tiled {c : Config} (h : New c g region) : Tiled g [] :=
  tiled_nil h.top_eq h.entry_eq

end Tenured.Generation
