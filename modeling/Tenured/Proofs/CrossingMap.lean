import Tenured.Proofs.Attempt
import Tenured.Proofs.BlockTable
import Tenured.Proofs.Object

/-!
# What the crossing map records

A region can be covered if it consists of whole blocks of the reservation
(`CrossingMap.cover_eq_ok`), and an object start can be recorded if it is covered
(`CrossingMap.record_eq_ok`).

`CrossingMap.Records t R` says that the map records the starts of which `R` holds: every entry is
one of them, and a block with such starts has an entry that is not above any of them. It is kept by
recording one start more (`Records.recordAt`) and by a change of the covered part, which forgets the
starts beyond its end (`Records.recover`).

A block has an entry exactly if one of the starts lies in it (`Records.startsIn`). Where the starts
are those of objects that lie one after another, a look-up finds the object that an address lies in
(`RecordsObjects.find`).
-/

namespace Tenured.CrossingMap

open Object (wordSize)

/-- The map records these starts. -/
structure Records (t : CrossingMap) (R : Nat → Prop) : Prop where
  sound : ∀ k offset, t.entry k = some offset →
    offset < blockWords ∧ R (t.starts.blockStart k + offset * wordSize)
  complete : ∀ addr, R addr → ∃ offset, t.entry (t.starts.blockAt addr) = some offset ∧
    t.starts.blockStart (t.starts.blockAt addr) + offset * wordSize ≤ addr

variable {t : CrossingMap} {R : Nat → Prop}

/-! ## Calls that end without a fault -/

section Calls

variable {t' : CrossingMap} {region : Region} {addr : Nat}

theorem ofReserved_eq_ok (h : ofReserved region = .ok t) :
    blockSize ∣ region.size ∧ t = ⟨.ofSpan region none, .emptyAt region.start⟩ := by
  unfold ofReserved at h
  split at h
  · cases h
  · rename_i hn
    simp only [Bool.or_eq_true, not_or, bne_iff_ne, ne_eq, Decidable.not_not] at hn
    exact ⟨Nat.dvd_of_mod_eq_zero hn.2, (Except.ok.inj h).symm⟩

/-- A region that can be covered consists of whole blocks. -/
theorem wholeBlocks_of_isBlockAligned (h : t.isBlockAligned region = .ok true) :
    t.starts.WholeBlocks region := by
  obtain ⟨first, hfirst, h⟩ := bind_eq_ok_iff.1 h
  obtain ⟨hle, rfl⟩ := Word.sub_eq_ok_iff.1 hfirst
  split at h
  · cases h
  · rename_i hn
    obtain ⟨last, hlast, h⟩ := bind_eq_ok_iff.1 h
    obtain ⟨-, rfl⟩ := Word.sub_eq_ok_iff.1 hlast
    exact ⟨hle, Nat.dvd_of_mod_eq_zero (Decidable.not_not.1 hn),
      Nat.dvd_of_mod_eq_zero (beq_iff_eq.1 (Except.ok.inj h))⟩

theorem cover_eq_ok (h : t.cover region = .ok t') :
    t.reserved.includes region ∧ t.starts.WholeBlocks region ∧
      t' = ⟨t.starts.recover t.covered region none, region⟩ := by
  obtain ⟨_, hi, h⟩ := bind_eq_ok_iff.1 h
  obtain ⟨aligned, ha, h⟩ := bind_eq_ok_iff.1 h
  obtain ⟨_, htrue, h⟩ := bind_eq_ok_iff.1 h
  cases h
  rw [check_eq_ok_iff.1 htrue] at ha
  exact ⟨check_eq_ok_iff.1 hi, wholeBlocks_of_isBlockAligned ha, rfl⟩

theorem record_eq_ok (h : t.record addr = .ok t') :
    addr ∈ t.covered ∧ wordSize ∣ addr ∧ addr ∈ t.reserved ∧
      t' = t.recordAt (t.starts.blockAt addr) addr := by
  obtain ⟨k, hk, h⟩ := bind_eq_ok_iff.1 h
  obtain ⟨_, hc, hk⟩ := bind_eq_ok_iff.1 hk
  obtain ⟨_, hd, hk⟩ := bind_eq_ok_iff.1 hk
  obtain ⟨_, hs, hk⟩ := bind_eq_ok_iff.1 hk
  cases hk
  cases h
  exact ⟨check_eq_ok_iff.1 hc, Nat.dvd_of_mod_eq_zero (check_eq_ok_iff.1 hd),
    check_eq_ok_iff.1 hs, rfl⟩

end Calls

/-! ## Recorded starts -/

/-- A map that has been told no start has no entries. -/
theorem entry_ofSpan (span covered : Region) (k : Nat) :
    (⟨.ofSpan span none, covered⟩ : CrossingMap).entry k = none := by
  simp only [entry, BlockTable.get?, BlockTable.ofSpan, Array.getElem?_replicate]
  split <;> rfl

theorem entry_recordAt (k addr j : Nat) : (t.recordAt k addr).entry j =
    if k = j ∧ j < t.starts.entries.size then some (earlier (t.offsetIn k addr) (t.entry k))
    else t.entry j := by
  simp only [entry, recordAt, BlockTable.get?_set]
  split <;> rfl

theorem earlier_le (offset : Nat) (o : Option Nat) : earlier offset o ≤ offset := by
  cases o with
  | none => exact Nat.le_refl _
  | some k => exact Nat.min_le_left ..

theorem earlier_cases (offset : Nat) (o : Option Nat) :
    earlier offset o = offset ∨ o = some (earlier offset o) := by
  cases o with
  | none => exact .inl rfl
  | some k =>
    simp only [earlier, Option.some.injEq]
    omega

theorem offsetIn_lt (t : CrossingMap) (addr : Nat) :
    t.offsetIn (t.starts.blockAt addr) addr < blockWords := by
  simp only [offsetIn, BlockTable.blockStart, BlockTable.blockAt, BlockTable.blockSize, blockWords,
    blockSize, wordSize]
  omega

/-- The words between the start of a block and a start in it lead back to that start. -/
theorem offsetIn_spec {addr : Nat} (hs : t.starts.span.start ≤ addr)
    (hd : 8 ∣ addr - t.starts.span.start) :
    t.offsetIn (t.starts.blockAt addr) addr < blockWords ∧
      t.starts.blockStart (t.starts.blockAt addr) +
        t.offsetIn (t.starts.blockAt addr) addr * wordSize = addr := by
  refine ⟨offsetIn_lt .., ?_⟩
  simp only [offsetIn, BlockTable.blockStart, BlockTable.blockAt, BlockTable.blockSize, wordSize]
  omega

namespace Records

theorem congr {R' : Nat → Prop} (h : Records t R) (hR : ∀ addr, R addr ↔ R' addr) :
    Records t R' :=
  ⟨fun k offset he => (h.sound k offset he).imp_right (hR _).1,
    fun addr ha => h.complete addr ((hR addr).2 ha)⟩

theorem recordAt (h : Records t R) {addr : Nat} (hs : t.starts.span.start ≤ addr)
    (hd : 8 ∣ addr - t.starts.span.start)
    (hk : t.starts.blockAt addr < t.starts.entries.size) :
    Records (t.recordAt (t.starts.blockAt addr) addr) fun a => R a ∨ a = addr := by
  have hspec := offsetIn_spec hs hd
  have hle := earlier_le (t.offsetIn (t.starts.blockAt addr) addr)
    (t.entry (t.starts.blockAt addr))
  constructor
  · intro k offset he
    rw [entry_recordAt] at he
    split at he
    · rename_i hkj
      obtain ⟨rfl, -⟩ := hkj
      cases he
      rcases earlier_cases (t.offsetIn (t.starts.blockAt addr) addr)
        (t.entry (t.starts.blockAt addr)) with hc | hc
      · rw [hc]
        exact ⟨hspec.1, .inr hspec.2⟩
      · have := h.sound _ _ hc
        exact ⟨this.1, .inl this.2⟩
    · have := h.sound _ _ he
      exact ⟨this.1, .inl this.2⟩
  · intro a ha
    show ∃ offset, _ = _ ∧ t.starts.blockStart (t.starts.blockAt a) + offset * wordSize ≤ a
    simp only [show (t.recordAt (t.starts.blockAt addr) addr).starts.blockAt a = t.starts.blockAt a
      from rfl, entry_recordAt]
    by_cases hka : t.starts.blockAt addr = t.starts.blockAt a
    · rw [if_pos ⟨hka, hka ▸ hk⟩]
      refine ⟨_, rfl, ?_⟩
      rcases ha with ha | rfl
      · obtain ⟨offset, he, hoff⟩ := h.complete a ha
        rw [hka, he]
        simp only [earlier, wordSize] at *
        omega
      · simp only [wordSize] at *
        omega
    · rw [if_neg fun hh => hka hh.1]
      rcases ha with ha | rfl
      · exact h.complete a ha
      · exact absurd rfl hka

/-- A change of the covered part that keeps its start forgets the starts beyond the new end. -/
theorem recover (h : Records t R) {region : Region} (hs : t.starts.span.start ≤ t.covered.start)
    (he : t.covered.start = region.start)
    (ho : BlockTable.blockSize ∣ t.covered.stop - t.starts.span.start)
    (hn : BlockTable.blockSize ∣ region.stop - t.starts.span.start)
    (hR : ∀ addr, R addr → t.starts.span.start ≤ addr ∧ addr < t.covered.stop) :
    Records ⟨t.starts.recover t.covered region none, region⟩
      fun addr => R addr ∧ addr < region.stop := by
  have hentry : ∀ k, (⟨t.starts.recover t.covered region none, region⟩ : CrossingMap).entry k =
      if min t.covered.stop region.stop ≤ t.starts.blockStart k ∧
        t.starts.blockStart k < max t.covered.stop region.stop then none else t.entry k := by
    intro k
    rcases Nat.lt_or_ge k t.starts.entries.size with hk | hk
    · simp only [entry, BlockTable.get?_recover hs he none hk ho hn]
      split <;> rfl
    · have hr : (t.starts.recover t.covered region none).get? k = none :=
        BlockTable.get?_eq_none (by rw [BlockTable.size_recover]; exact hk)
      simp only [entry, hr, BlockTable.get?_eq_none hk]
      split <;> rfl
  have hstart : ∀ k, (t.starts.recover t.covered region none).blockStart k =
      t.starts.blockStart k := by
    simp only [BlockTable.blockStart, BlockTable.span_recover, implies_true]
  have hblock : ∀ addr, (t.starts.recover t.covered region none).blockAt addr =
      t.starts.blockAt addr := by
    simp only [BlockTable.blockAt, BlockTable.span_recover, implies_true]
  constructor
  · intro k offset hk
    rw [hentry] at hk
    split at hk
    · cases hk
    · rename_i hout
      have hsound := h.sound k offset hk
      refine ⟨hsound.1, hstart k ▸ hsound.2, ?_⟩
      -- The block is not past the old end, so it lies below the new one, as a whole.
      have := hR _ hsound.2
      have := hsound.1
      rw [hstart]
      simp only [BlockTable.blockStart, BlockTable.blockSize, blockWords, blockSize,
        wordSize] at *
      omega
  · rintro addr ⟨ha, hlt⟩
    have hb := hR addr ha
    have := BlockTable.blockStart_blockAt_le hb.1
    simp only [hstart, hblock, hentry]
    rw [if_neg (by omega)]
    exact h.complete addr ha

end Records

/-! ## Look-up -/

/-- Where a block has a start to offer, the search back over the blocks ends at the last block that
has one. -/
theorem exists_lastStart? {addr first j k s : Nat} (hf : first ≤ j) (hk : j ≤ k)
    (hs : t.candidate? addr j = some s) :
    ∃ s' i, t.lastStart? addr first k = some s' ∧ t.candidate? addr i = some s' ∧ j ≤ i ∧
      ∀ i', i < i' → i' ≤ k → t.candidate? addr i' = none := by
  induction k with
  | zero =>
    obtain rfl : j = 0 := by omega
    exact ⟨s, 0, hs, hs, Nat.le_refl _, fun i' hi hle => by omega⟩
  | succ k ih =>
    rw [lastStart?]
    cases hc : t.candidate? addr (k + 1) with
    | some s' => exact ⟨s', k + 1, rfl, hc, hk, fun i' hi hle => by omega⟩
    | none =>
      have hlt : j < k + 1 := by
        rcases Nat.lt_or_eq_of_le hk with hlt | rfl
        · exact hlt
        · cases hc.symm.trans hs
      obtain ⟨s', i, hl, hi, hji, hnone⟩ := ih (Nat.le_of_lt_succ hlt)
      refine ⟨s', i, ?_, hi, hji, fun i' hi' hle => ?_⟩
      · simp only [Nat.lt_of_le_of_lt hf hlt, if_true, hl]
      · rcases Nat.lt_or_eq_of_le hle with hlt' | rfl
        · exact hnone i' hi' (Nat.le_of_lt_succ hlt')
        · exact hc

theorem candidate?_eq_some_iff {addr k s : Nat} : t.candidate? addr k = some s ↔
    ∃ offset, t.entry k = some offset ∧ s = t.starts.blockStart k + offset * wordSize ∧
      s ≤ addr := by
  unfold candidate?
  split <;> grind

theorem any_slice_iff {start stop : Nat} (hlt : start < stop) :
    (t.starts.slice start stop).any Option.isSome = true ↔
      ∃ k, t.starts.blockAt start ≤ k ∧ k ≤ t.starts.blockAt (stop - 1) ∧ (t.entry k).isSome := by
  have hmono := BlockTable.blockAt_mono (t := t.starts) (Nat.le_sub_one_of_lt hlt)
  simp only [BlockTable.slice, BlockTable.blocksIn, hlt, if_true, List.any_filterMap,
    List.any_eq_true, List.mem_range, entry, BlockTable.get?]
  constructor
  · rintro ⟨i, hi, hsome⟩
    refine ⟨t.starts.blockAt start + i, by omega, by omega, ?_⟩
    cases he : t.starts.entries[t.starts.blockAt start + i]? with
    | none => rw [he] at hsome; cases hsome
    | some o => rw [he] at hsome; exact hsome
  · rintro ⟨k, h₁, h₂, hsome⟩
    refine ⟨k - t.starts.blockAt start, by omega, ?_⟩
    rw [Nat.add_sub_cancel' h₁]
    cases he : t.starts.entries[k]? with
    | none => rw [he] at hsome; cases hsome
    | some o => rw [he] at hsome; exact hsome

theorem hasStart_eq_ok {addr : Nat} (h : addr ∈ t.reserved) :
    t.hasStart addr = .ok (t.entry (t.starts.blockAt addr)).isSome := by
  simp only [hasStart, BlockTable.blockOf_eq_ok h, bind, Except.bind]
  rfl

theorem startsIn_eq_ok {start stop : Nat} (hlt : start < stop) (h₁ : start ∈ t.reserved)
    (h₂ : stop - 1 ∈ t.reserved) :
    t.startsIn start stop = .ok ((t.starts.slice start stop).any Option.isSome) := by
  simp only [startsIn, if_neg (Nat.not_le.2 hlt), BlockTable.blockOf_eq_ok h₁,
    BlockTable.blockOf_eq_ok h₂]
  rfl

namespace Records

/-- A recorded start lies in the block of its entry. -/
theorem blockAt_entry (h : Records t R) {k offset : Nat} (he : t.entry k = some offset) :
    t.starts.blockAt (t.starts.blockStart k + offset * wordSize) = k := by
  have := (h.sound k offset he).1
  simp only [BlockTable.blockAt, BlockTable.blockStart, BlockTable.blockSize, blockWords, blockSize,
    wordSize] at *
  omega

/-- A block has an entry exactly if one of the starts lies in it. -/
theorem isSome_entry_iff (h : Records t R) {k : Nat} :
    (t.entry k).isSome ↔ ∃ addr, R addr ∧ t.starts.blockAt addr = k := by
  constructor
  · intro hk
    obtain ⟨offset, he⟩ := Option.isSome_iff_exists.1 hk
    exact ⟨_, (h.sound k offset he).2, h.blockAt_entry he⟩
  · rintro ⟨addr, hR, rfl⟩
    obtain ⟨offset, he, -⟩ := h.complete addr hR
    rw [he]
    rfl

/-- In the block of a start something starts. -/
theorem hasStart (h : Records t R) {addr : Nat} (ha : R addr) (hs : addr ∈ t.starts.span) :
    t.hasStart addr = .ok true := by
  obtain ⟨offset, he, -⟩ := h.complete addr ha
  rw [hasStart_eq_ok hs, he]
  rfl

/-- Whether one of the starts lies in the blocks that a range touches. -/
theorem startsIn (h : Records t R) {start stop : Nat} (hlt : start < stop)
    (h₁ : start ∈ t.starts.span) (h₂ : stop - 1 ∈ t.starts.span) :
    ∃ b, t.startsIn start stop = .ok b ∧ (b = true ↔ ∃ addr, R addr ∧
      t.starts.blockAt start ≤ t.starts.blockAt addr ∧
      t.starts.blockAt addr ≤ t.starts.blockAt (stop - 1)) := by
  refine ⟨_, startsIn_eq_ok hlt h₁ h₂, ?_⟩
  rw [any_slice_iff hlt]
  constructor
  · rintro ⟨k, hk₁, hk₂, hk⟩
    obtain ⟨addr, ha, rfl⟩ := h.isSome_entry_iff.1 hk
    exact ⟨addr, ha, hk₁, hk₂⟩
  · rintro ⟨addr, ha, hk₁, hk₂⟩
    exact ⟨_, hk₁, hk₂, h.isSome_entry_iff.2 ⟨addr, ha, rfl⟩⟩

end Records

/-- The objects start where the map has recorded starts. -/
def RecordsObjects (t : CrossingMap) (os : List Object) : Prop :=
  t.Records fun addr => ∃ o ∈ os, o.addr = addr

namespace RecordsObjects

variable {os : List Object} {start stop : Nat} {m : Memory}

/-- A look-up finds the object that the address lies in. -/
theorem find (h : t.RecordsObjects os) (ht : Object.Tiles start stop os) (hd : 8 ∣ start)
    (hm : Object.Headers m os) (hl : stop < Word.limit) (hc : t.covered.start ≤ start)
    (hspan : t.starts.span.includes t.covered) {addr : Nat} (ha : addr ∈ t.covered)
    (hs : start ≤ addr) (hstop : addr < stop) :
    ∃ o ∈ os, o.Holds addr ∧ t.find m addr = .ok o.addr := by
  have hstart : t.covered.start ∈ t.covered := ⟨Nat.le_refl _, Nat.lt_of_le_of_lt ha.1 ha.2⟩
  have hfirst := BlockTable.blockOf_eq_ok (Region.mem_of_includes hspan hstart)
  have hlast := BlockTable.blockOf_eq_ok (Region.mem_of_includes hspan ha)
  -- The block in which the object starts that holds the address has a start to offer.
  obtain ⟨o₀, ho₀, hh₀⟩ := ht.exists_holds hs hstop
  have hlow := Nat.le_trans hc (ht.bounds ho₀).1
  obtain ⟨offset, he, hle⟩ := h.complete _ ⟨o₀, ho₀, rfl⟩
  have hcand : t.candidate? addr (t.starts.blockAt o₀.addr) = some _ :=
    candidate?_eq_some_iff.2 ⟨offset, he, rfl, Nat.le_trans hle hh₀.1⟩
  obtain ⟨s, j, hs, hj, -⟩ :=
    exists_lastStart? (BlockTable.blockAt_mono hlow) (BlockTable.blockAt_mono hh₀.1) hcand
  obtain ⟨offset', he', rfl, hsle⟩ := candidate?_eq_some_iff.1 hj
  obtain ⟨-, o, ho, hoaddr⟩ := h.sound _ _ he'
  rw [← hoaddr] at hs hsle
  obtain ⟨o', ho', hh', hw⟩ := ht.walk_from hd hm hl ho hsle hstop
  refine ⟨o', ho', hh', ?_⟩
  simp only [CrossingMap.find, check, ha, if_true, hfirst, hlast, hs, orFault, bind, Except.bind,
    hw]

end RecordsObjects

end Tenured.CrossingMap
