import Tenured.Proofs.CrossingMap.AnyMemory

/-!
# From an address to an entry and back

An entry says how many words a start is from the start of its block. The blocks are counted from the
start of the reservation, so that the start is read back as it was if the reservation starts at a
multiple of the word size, and as an address below it otherwise (`CrossingMap.decode_eq_iff`). A
reservation need not start at one: `CrossingMap.ofReserved` only looks at its size.

* `CrossingMap.exists_foldlM_record`: starts in the covered part can be recorded in any order, and
  the map records all of them then.
* `CrossingMap.finds_objects`: objects anywhere in the covered part are found by every address in
  them.
-/

namespace Tenured.CrossingMap

open Object (wordSize)

variable {t t' : CrossingMap} {reserved region : Region} {R : Nat → Prop} {addr : Nat}

/-! ## Decoding -/

/-- The address that is read back from the block of an address and the words to it. -/
def decode (t : CrossingMap) (addr : Nat) : Nat :=
  t.starts.blockStart (t.starts.blockAt addr) +
    t.offsetIn (t.starts.blockAt addr) addr * wordSize

theorem decode_eq_iff (hs : t.reserved.start ≤ addr) :
    t.decode addr = addr ↔ wordSize ∣ addr - t.reserved.start := by
  simp only [reserved] at hs ⊢
  simp only [decode, offsetIn, BlockTable.blockStart, BlockTable.blockAt, BlockTable.blockSize,
    wordSize]
  omega

/-! ## Recording in any order -/

theorem record_of_mem (hspan : t.reserved.includes t.covered) (hc : addr ∈ t.covered)
    (hd : wordSize ∣ addr) : t.record addr = .ok (t.recordAt (t.starts.blockAt addr) addr) := by
  simp only [record, checkStart, check, hc, Nat.mod_eq_zero_of_dvd hd, if_true, bind, Except.bind,
    BlockTable.blockOf_eq_ok (Region.mem_of_includes hspan hc)]
  rfl

/-- Starts in the covered part can be recorded one after another. -/
theorem exists_foldlM_record {addrs : List Nat} (hcomplete : t.starts.Complete)
    (hspan : t.reserved.includes t.covered)
    (haddrs : ∀ addr ∈ addrs, addr ∈ t.covered ∧ wordSize ∣ addr) :
    ∃ t', addrs.foldlM record t = .ok t' ∧ t'.covered = t.covered ∧ t'.reserved = t.reserved ∧
      (∀ {R}, Refines t R → ∃ R', Refines t' R') ∧
      (wordSize ∣ t.reserved.start → ∀ {R}, Records t R →
        Records t' fun addr => R addr ∨ addr ∈ addrs) := by
  induction addrs generalizing t with
  | nil => exact ⟨t, rfl, rfl, rfl, fun h => ⟨_, h⟩, fun _ R h => h.congr (by simp)⟩
  | cons addr addrs ih =>
    obtain ⟨⟨hc, hd⟩, hrest⟩ := List.forall_mem_cons.1 haddrs
    have hmem := Region.mem_of_includes hspan hc
    have hstep : (t.recordAt (t.starts.blockAt addr) addr).starts.Complete :=
      hcomplete.congr rfl (BlockTable.size_set ..)
    obtain ⟨t', ht', hcov, hres, href, hrec⟩ := ih hstep hspan hrest
    refine ⟨t', ?_, hcov, hres, fun h => href (h.record (record_of_mem hspan hc hd)),
      fun hstart R h => ?_⟩
    · rw [List.foldlM_cons, record_of_mem hspan hc hd]
      exact ht'
    · have hrecord := h.recordAt hmem.1 (Nat.dvd_sub hd hstart) (hcomplete.blockAt_lt hmem)
      exact (hrec hstart hrecord).congr fun a => by rw [List.mem_cons, or_assoc]

/-- Where the reservation begins at an address at which no header can lie, no look-up has a
result. -/
theorem Refines.find_ne_ok {R : Finset Nat} (h : Refines t R) (hn : ¬ 8 ∣ t.reserved.start)
    (m : Memory) (addr x : Nat) : t.find m addr ≠ .ok x := by
  by_cases ha : addr ∈ t.covered
  · obtain ⟨-, hfind⟩ | ⟨first, hgreatest, -, hfind⟩ := h.find_cases ha
    · simp [hfind]
    · obtain ⟨hge, hd⟩ := hgreatest.1.1.dvd
      have hfirst : ¬ 8 ∣ first := fun hf => hn ((Nat.dvd_sub_iff_right hge hf).1 hd)
      rw [hfind, walk, Memory.readWord_of_not_dvd hfirst]
      simp
  · simp [find_of_not_mem ha]

/-! ## Objects -/

/-- A new map records nothing, whatever it covers. -/
theorem records_of_cover {t₀ : CrossingMap} (hr : ofReserved reserved = .ok t₀)
    (hc : t₀.cover region = .ok t) : Refines t ∅ ∧ Records t fun _ => False := by
  have h : Refines t ∅ := kept_empty ▸ (Refines.ofReserved hr).cover hc
  have hnone : ∀ k, t.entry k = none := fun k => (h.least k).unique offsets_empty
  exact ⟨h, fun k offset he => by simp [hnone] at he, fun _ => False.elim⟩

theorem regions_of_cover {t₀ : CrossingMap} (hr : ofReserved reserved = .ok t₀)
    (hc : t₀.cover region = .ok t) : t.covered = region ∧ t.reserved = reserved := by
  obtain ⟨-, rfl⟩ := ofReserved_eq_ok hr
  obtain ⟨-, -, rfl⟩ := cover_eq_ok hc
  exact ⟨rfl, BlockTable.span_recover ..⟩

/-- A map is given a reservation and a covered part, and the starts of objects that lie one after
another anywhere in it are recorded, in whatever order and however often. All of them can be
recorded, and a look-up finds the object that an address lies in if the reservation starts at a
multiple of the word size. Every word of the reservation is read back from its block and the words
to it in that case, and none otherwise: then no entry stands for the start of an object, and no
look-up has a result. -/
theorem finds_objects {t₀ : CrossingMap} (hr : ofReserved reserved = .ok t₀)
    (hc : t₀.cover region = .ok t) {start stop : Nat} {os : List Object}
    (ht : Object.Tiles start stop os) (hd : wordSize ∣ start) (hlow : region.start ≤ start)
    (hhigh : stop ≤ region.stop) (hl : region.stop < Word.limit) {m : Memory}
    (hm : Object.Headers m os) {addrs : List Nat}
    (haddrs : ∀ addr, addr ∈ addrs ↔ ∃ o ∈ os, o.addr = addr) :
    ∃ t', addrs.foldlM record t = .ok t' ∧
      (wordSize ∣ reserved.start →
        ∀ o ∈ os, ∀ addr, o.Holds addr → t'.find m addr = .ok o.addr) ∧
      (∀ addr ∈ reserved, wordSize ∣ addr →
        t'.offsetIn (t'.starts.blockAt addr) addr < blockWords ∧
        (t'.decode addr = addr ↔ wordSize ∣ reserved.start)) ∧
      (¬ wordSize ∣ reserved.start → (∀ s, t'.EntryStart s → ∀ o ∈ os, o.addr ≠ s) ∧
        ∀ m addr x, t'.find m addr ≠ .ok x) := by
  obtain ⟨href, hrec⟩ := records_of_cover hr hc
  obtain ⟨hcov, hres⟩ := regions_of_cover hr hc
  have hmem : ∀ o ∈ os, ∀ addr, o.Holds addr → addr ∈ t.covered := by
    intro o ho addr hh
    have hb := ht.bounds ho
    rw [hcov]
    exact ⟨Nat.le_trans hlow (Nat.le_trans hb.1 hh.1),
      Nat.lt_of_lt_of_le hh.2 (Nat.le_trans hb.2 hhigh)⟩
  have hstarts : ∀ addr ∈ addrs, addr ∈ t.covered ∧ wordSize ∣ addr := by
    intro addr ha
    obtain ⟨o, ho, rfl⟩ := (haddrs addr).1 ha
    exact ⟨hmem o ho _ (ht.holds_addr ho), ht.dvd_addr hd ho⟩
  obtain ⟨t', ht', hcov', hres', hrefines, hrecords⟩ :=
    exists_foldlM_record href.complete href.includes hstarts
  have hspan : t'.reserved.includes t'.covered := by
    rw [hcov', hres']
    exact href.includes
  refine ⟨t', ht', fun hdvd o ho addr hh => ?_, fun addr ha hda => ⟨offsetIn_lt .., ?_⟩,
    fun hn => ⟨fun s hs o ho heq => hn ?_, ?_⟩⟩
  · have hobjects : t'.RecordsObjects os :=
      (hrecords (hres ▸ hdvd) hrec).congr fun addr => by rw [false_or, haddrs]
    have hb := ht.bounds ho
    obtain ⟨o', ho', hh', hf⟩ := hobjects.find ht hd hm (Nat.lt_of_le_of_lt hhigh hl)
      (by rwa [hcov', hcov]) hspan (hcov' ▸ hmem o ho addr hh) (Nat.le_trans hb.1 hh.1)
      (Nat.lt_of_lt_of_le hh.2 hb.2)
    rwa [ht.eq_of_holds ho ho' hh hh']
  · have hle : t'.reserved.start ≤ addr := by
      rw [hres', hres]
      exact ha.1
    rw [decode_eq_iff hle, hres', hres]
    exact Nat.dvd_sub_iff_right ha.1 hda
  · obtain ⟨hle, hdvd⟩ := hs.dvd
    rw [hres', hres, ← heq] at hle hdvd
    exact (Nat.dvd_sub_iff_right hle (ht.dvd_addr hd ho)).1 hdvd
  · obtain ⟨R', href'⟩ := hrefines href
    exact href'.find_ne_ok (by rwa [hres', hres])

/-- Three objects begin some words above the covered part's start, and the last one is recorded
first. The second one lies in two blocks. -/
theorem finds_objects_small : ∃ (t₀ t t' : CrossingMap) (m : Memory),
    ofReserved ⟨4096, 5632, by decide⟩ = .ok t₀ ∧ t₀.cover ⟨4096, 5120, by decide⟩ = .ok t ∧
    Object.Tiles 4112 4752 [⟨4112, 24⟩, ⟨4136, 600⟩, ⟨4736, 16⟩] ∧
    Object.Headers m [⟨4112, 24⟩, ⟨4136, 600⟩, ⟨4736, 16⟩] ∧
    [4736, 4112, 4136].foldlM record t = .ok t' ∧ t'.find m 4700 = .ok 4136 := by
  have hrun : ∃ t₀ t : CrossingMap, ofReserved ⟨4096, 5632, by decide⟩ = .ok t₀ ∧
      t₀.cover ⟨4096, 5120, by decide⟩ = .ok t := ⟨_, _, rfl, rfl⟩
  obtain ⟨t₀, t, hr, hc⟩ := hrun
  have ht : Object.Tiles 4112 4752 [⟨4112, 24⟩, ⟨4136, 600⟩, ⟨4736, 16⟩] :=
    .cons (by decide) (by decide) (.cons (by decide) (by decide)
      (.cons (by decide) (by decide) .nil))
  have hm : Object.Headers (((Memory.zero.setWord 514 24).setWord 517 600).setWord 592 16)
      [⟨4112, 24⟩, ⟨4136, 600⟩, ⟨4736, 16⟩] := by
    simp [Object.Headers, Memory.load, Memory.wordAt_setWord]
  have haddrs : ∀ addr, addr ∈ [4736, 4112, 4136] ↔
      ∃ o ∈ [(⟨4112, 24⟩ : Object), ⟨4136, 600⟩, ⟨4736, 16⟩], o.addr = addr := by
    intro addr
    simp only [List.mem_cons, List.not_mem_nil, or_false, exists_eq_or_imp, exists_eq_left]
    omega
  obtain ⟨t', ht', hfind, -⟩ := finds_objects hr hc ht (by decide) (by decide) (by decide)
    (by decide) hm haddrs
  exact ⟨t₀, t, t', _, hr, hc, ht, hm, ht', hfind (by decide) _ (.tail _ (.head _)) 4700
    (by decide)⟩

/-- A reservation that begins inside a word is accepted. The start of an object in it is read back
four bytes too low, at an address at which no header can lie, and the look-up ends there. -/
theorem misses_object : ∃ (t₀ t t' : CrossingMap) (m : Memory),
    ofReserved ⟨4100, 5124, by decide⟩ = .ok t₀ ∧ t₀.cover ⟨4100, 5124, by decide⟩ = .ok t ∧
    Object.Tiles 4104 4120 [⟨4104, 16⟩] ∧ Object.Headers m [⟨4104, 16⟩] ∧
    t.record 4104 = .ok t' ∧ t'.EntryStart 4100 ∧
    t'.find m 4104 = .error (.misaligned 4100) := by
  have hrun : ∃ t₀ t t' : CrossingMap, ofReserved ⟨4100, 5124, by decide⟩ = .ok t₀ ∧
      t₀.cover ⟨4100, 5124, by decide⟩ = .ok t ∧ t.record 4104 = .ok t' ∧ t'.EntryStart 4100 ∧
      ∀ m, t'.find m 4104 = walk m 4104 4100 :=
    ⟨_, _, _, rfl, rfl, rfl, ⟨0, 0, rfl, rfl⟩, fun _ => rfl⟩
  obtain ⟨t₀, t, t', hr, hc, ht', hs, hwalk⟩ := hrun
  refine ⟨t₀, t, t', Memory.zero.setWord 513 16, hr, hc, .cons (by decide) (by decide) .nil,
    by simp [Object.Headers, Memory.load, Memory.wordAt_setWord], ht', hs, ?_⟩
  rw [hwalk, walk, Memory.readWord_of_not_dvd (by decide)]

end Tenured.CrossingMap
