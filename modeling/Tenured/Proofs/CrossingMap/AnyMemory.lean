import Mathlib.Algebra.Order.BigOperators.Group.List
import Mathlib.Algebra.Ring.Nat
import Tenured.Proofs.CrossingMap.Lookup
import Tenured.Proofs.CrossingMap.Recorded

/-!
# Look-ups in any memory

A look-up trusts neither the recorded starts nor the headers. Whatever was recorded, and whatever
memory holds, it ends, and it reads no header that begins outside the covered part. But it follows
sizes that no object has, and so it can be led to an address at which no header can lie.

* `CrossingMap.Refines.lastStart?_eq_none`, `CrossingMap.Refines.isGreatest_of_lastStart?`: the
  search back over the blocks finds the last start that the entries give up to an address, or there
  is none.
* `CrossingMap.walk_stops`: a walk passes objects as long as they do not lead past the address, and
  stops where no header can lie, at a header of size zero, at one that leads beyond the last
  address, or at one that says that its object holds the address.
* `CrossingMap.walk_congr`: a walk depends on the headers from its start up to the address only.
* `CrossingMap.Run.find_outcome`: the outcomes of a look-up. `CrossingMap.Run.find_misaligned` shows
  the one that a check of the sizes on the way would prevent.
-/

namespace Tenured.CrossingMap

open Object (wordSize Passes)

variable {t : CrossingMap} {R : Finset Nat} {m m' : Memory} {addr start first k s : Nat}

/-! ## Walks -/

/-- How a walk ends that has come to an address. -/
inductive Stops (m : Memory) (addr s : Nat) : Except Fault Nat → Prop
  | misaligned (hd : ¬ 8 ∣ s) : Stops m addr s (.error (.misaligned s))
  | zero (hd : 8 ∣ s) (hz : m.load s = 0) : Stops m addr s (.error (.zeroSizedObject s))
  | overflow (hd : 8 ∣ s) (hl : Word.limit ≤ s + m.load s) : Stops m addr s (.error .overflow)
  | found (hd : 8 ∣ s) (hlt : addr < s + m.load s) (hl : s + m.load s < Word.limit) :
    Stops m addr s (.ok s)

/-- A walk passes objects of sizes that are not zero, and stops at or below the address that it
seeks. -/
theorem walk_stops (hs : start ≤ addr) : ∃ sizes s, Passes (0 < ·) m (addr + 1) start sizes s ∧
    s ≤ addr ∧ Stops m addr s (walk m addr start) := by
  fun_induction walk m addr start with
  | case1 start e hr =>
    obtain ⟨hd, rfl⟩ := Memory.readWord_eq_error_iff.1 hr
    exact ⟨[], start, .here, hs, .misaligned hd⟩
  | case2 start hr =>
    obtain ⟨hd, hz⟩ := Memory.readWord_eq_ok_iff.1 hr
    exact ⟨[], start, .here, hs, .zero hd hz⟩
  | case3 start size hr hz hl =>
    obtain ⟨hd, rfl⟩ := Memory.readWord_eq_ok_iff.1 hr
    exact ⟨[], start, .here, hs, .overflow hd hl⟩
  | case4 start size hr hz hl hlt =>
    obtain ⟨hd, rfl⟩ := Memory.readWord_eq_ok_iff.1 hr
    exact ⟨[], start, .here, hs, .found hd hlt (Nat.not_le.1 hl)⟩
  | case5 start size hr hz hl hge ih =>
    obtain ⟨sizes, s, h, hle, hstop⟩ := ih (Nat.le_of_not_lt hge)
    exact ⟨size :: sizes, s,
      .next (Nat.lt_succ_of_le hs) hr (Nat.pos_of_ne_zero hz) (Nat.not_le.1 hl) h, hle, hstop⟩

/-- A walk reads no header below its start or above the address that it seeks. -/
theorem walk_congr (hs : start ≤ addr) (h : ∀ s, start ≤ s → s ≤ addr → m'.load s = m.load s) :
    walk m' addr start = walk m addr start := by
  have hstart := Memory.readWord_congr (h start (Nat.le_refl _) hs)
  fun_induction walk m addr start with
  | case1 start e hr => rw [walk, hstart, hr]
  | case2 start hr =>
    rw [walk, hstart, hr]
    exact if_pos rfl
  | case3 start size hr hz hl =>
    rw [walk, hstart, hr]
    simp only [if_neg hz, if_pos hl]
  | case4 start size hr hz hl hlt =>
    rw [walk, hstart, hr]
    simp only [if_neg hz, if_neg hl, if_pos hlt]
  | case5 start size hr hz hl hge ih =>
    have hle := Nat.le_of_not_lt hge
    have hlow := Nat.le_add_right start size
    rw [walk, hstart, hr]
    simp only [if_neg hz, if_neg hl, if_neg hge]
    exact ih hle (fun s hs' => h s (Nat.le_trans hlow hs'))
      (Memory.readWord_congr (h _ hlow hle))

theorem find_of_not_mem (ha : addr ∉ t.covered) :
    t.find m addr = .error (.lookupUncovered addr t.covered) := by
  simp only [find, check, ha, if_false]
  rfl

/-! ## The search back -/

/-- The entry of some block stands for an address. -/
def EntryStart (t : CrossingMap) (s : Nat) : Prop :=
  ∃ k offset, t.entry k = some offset ∧ t.starts.blockStart k + offset * wordSize = s

/-- A start that the search finds is offered by one of the blocks that it goes over. -/
theorem candidate?_of_lastStart? (hf : first ≤ k) (h : t.lastStart? addr first k = some s) :
    ∃ i, first ≤ i ∧ i ≤ k ∧ t.candidate? addr i = some s := by
  fun_induction lastStart? t addr first k with
  | case1 => exact ⟨0, hf, Nat.le_refl _, h⟩
  | case2 k s' hc => exact ⟨k + 1, hf, Nat.le_refl _, hc.trans h⟩
  | case3 k hc hlt ih =>
    obtain ⟨i, hfi, hik, hi⟩ := ih (Nat.le_of_lt_succ hlt) h
    exact ⟨i, hfi, Nat.le_succ_of_le hik, hi⟩
  | case4 => cases h

namespace Refines

variable (h : Refines t R)
include h

/-- The start that an entry stands for lies in the block of the entry, and in the covered part. -/
theorem entryStart_mem {offset : Nat} (he : t.entry k = some offset) :
    t.starts.blockStart k + offset * wordSize ∈ t.starts.block k ∧
      t.starts.blockStart k + offset * wordSize ∈ t.covered := by
  have hleast := h.least k
  rw [he] at hleast
  obtain ⟨addr, ha, hk, rfl⟩ := hleast.1
  have hmem : t.starts.blockStart k + t.offsetIn k addr * wordSize ∈ t.starts.block k := by
    have := hk.1
    have := hk.2
    simp only [BlockTable.block, Region.mem_def, offsetIn, wordSize] at *
    omega
  exact ⟨hmem, h.whole.mem_of_meets ⟨addr, hk, h.mem_covered addr ha⟩ hmem⟩

theorem entryStart_mem_covered (hs : t.EntryStart s) : s ∈ t.covered := by
  obtain ⟨k, offset, he, rfl⟩ := hs
  exact (h.entryStart_mem he).2

/-- A block of which the entry stands for an address at or below another offers it to the search. -/
theorem candidate?_of_entryStart (hs : t.EntryStart s) (hle : s ≤ addr) :
    t.starts.blockAt t.covered.start ≤ t.starts.blockAt s ∧
      t.starts.blockAt s ≤ t.starts.blockAt addr ∧
      t.candidate? addr (t.starts.blockAt s) = some s := by
  have hcov := h.entryStart_mem_covered hs
  obtain ⟨k, offset, he, rfl⟩ := hs
  have hlow := (Region.mem_of_includes h.includes hcov).1
  have hk := (BlockTable.mem_block_iff hlow).1 (h.entryStart_mem he).1
  refine ⟨BlockTable.blockAt_mono hcov.1, BlockTable.blockAt_mono hle, ?_⟩
  rw [hk]
  exact candidate?_eq_some_iff.2 ⟨offset, he, rfl, hle⟩

/-- Where the search finds nothing, no entry stands for an address that is low enough. -/
theorem lastStart?_eq_none
    (hn : t.lastStart? addr (t.starts.blockAt t.covered.start) (t.starts.blockAt addr) = none)
    (hs : t.EntryStart s) : addr < s := by
  refine Nat.lt_of_not_le fun hle => ?_
  obtain ⟨hfirst, hlast, hc⟩ := h.candidate?_of_entryStart hs hle
  obtain ⟨s', -, hs', -⟩ := exists_lastStart? hfirst hlast hc
  cases hn.symm.trans hs'

/-- The search finds the last one of the addresses that entries stand for. -/
theorem isGreatest_of_lastStart? (ha : addr ∈ t.covered)
    (hl : t.lastStart? addr (t.starts.blockAt t.covered.start) (t.starts.blockAt addr) = some s) :
    IsGreatest {s | t.EntryStart s ∧ s ≤ addr} s := by
  obtain ⟨i, -, -, hi⟩ := candidate?_of_lastStart? (BlockTable.blockAt_mono ha.1) hl
  obtain ⟨offset, he, hs, hle⟩ := candidate?_eq_some_iff.1 hi
  refine ⟨⟨⟨i, offset, he, hs.symm⟩, hle⟩, ?_⟩
  rintro s' ⟨hs', hle'⟩
  obtain ⟨hfirst, hlast, hc⟩ := h.candidate?_of_entryStart hs' hle'
  obtain ⟨_, j, hl', hj, hij, -⟩ := exists_lastStart? hfirst hlast hc
  obtain rfl := Option.some.inj (hl.symm.trans hl')
  -- The search ended at block `j`, and the block of the other start is `j` or an earlier one.
  rcases Nat.lt_or_eq_of_le hij with hlt | rfl
  · obtain ⟨offset', -, hs'', -⟩ := candidate?_eq_some_iff.1 hj
    have hlow := (Region.mem_of_includes h.includes (h.entryStart_mem_covered hs')).1
    have := BlockTable.lt_blockStart hlow hlt
    omega
  · exact (Option.some.inj (hc.symm.trans hj)).le

/-- A look-up of a covered address fails, or is the walk from the last one of the addresses that
entries stand for, in whatever memory. -/
theorem find_cases (ha : addr ∈ t.covered) :
    ((∀ s, t.EntryStart s → addr < s) ∧ ∀ m, t.find m addr = .error (.noStartBelow addr)) ∨
    ∃ first, IsGreatest {s | t.EntryStart s ∧ s ≤ addr} first ∧ t.covered.start ≤ first ∧
      ∀ m, t.find m addr = walk m addr first := by
  simp only [find_eq_bind h.includes ha]
  cases hl : t.lastStart? addr (t.starts.blockAt t.covered.start) (t.starts.blockAt addr) with
  | none => exact .inl ⟨fun s hs => h.lastStart?_eq_none hl hs, fun _ => rfl⟩
  | some first =>
    have hgreatest := h.isGreatest_of_lastStart? ha hl
    exact .inr ⟨first, hgreatest, (h.entryStart_mem_covered hgreatest.1.1).1, fun _ => rfl⟩

/-- A look-up reads no header outside the covered part, and none above the address. -/
theorem find_congr (hm : ∀ s, t.covered.start ≤ s → s ≤ addr → m'.load s = m.load s) :
    t.find m' addr = t.find m addr := by
  by_cases ha : addr ∈ t.covered
  · obtain ⟨-, hfind⟩ | ⟨first, hgreatest, hlow, hfind⟩ := h.find_cases ha
    · rw [hfind, hfind]
    · rw [hfind, hfind]
      exact walk_congr hgreatest.1.2 fun s hs => hm s (Nat.le_trans hlow hs)
  · rw [find_of_not_mem ha, find_of_not_mem ha]

end Refines

/-- What is read back from an entry is a number of words from the start of the reservation. -/
theorem EntryStart.dvd (h : t.EntryStart s) :
    t.reserved.start ≤ s ∧ wordSize ∣ s - t.reserved.start := by
  obtain ⟨k, offset, -, rfl⟩ := h
  simp only [reserved, BlockTable.blockStart, BlockTable.blockSize, wordSize]
  omega

/-! ## Outcomes -/

/-- A look-up ends, whatever was recorded and whatever memory holds. It fails if the address is not
covered, and if no entry stands for an address that is low enough. Otherwise it goes from the last
such address from header to header, in fewer steps than there are bytes up to the address, and ends
at an address in the covered part: with a fault if no header can lie there, or if the size there is
zero or leads beyond the last address, and else with that address, from which the size leads past
the address sought. A header can lie there if the reservation starts at a multiple of eight and all
sizes on the way are such multiples. All blocks that it looks at have an entry, and all headers that
it reads begin in the covered part, at or below the address. -/
theorem Run.find_outcome (h : Run t R) (m : Memory) (addr : Nat) :
    (addr ∉ t.covered ∧ t.find m addr = .error (.lookupUncovered addr t.covered) ∨
      addr ∈ t.covered ∧ (∀ s, t.EntryStart s → addr < s) ∧
        t.find m addr = .error (.noStartBelow addr) ∨
      ∃ first sizes s, addr ∈ t.covered ∧ IsGreatest {s | t.EntryStart s ∧ s ≤ addr} first ∧
        Passes (0 < ·) m (addr + 1) first sizes s ∧ Object.Chain m first sizes ∧
        sizes.length ≤ addr - first ∧ s = first + sizes.sum ∧ t.covered.start ≤ s ∧ s ≤ addr ∧
        (8 ∣ t.reserved.start → (∀ n ∈ sizes, 8 ∣ n) → 8 ∣ s) ∧
        (¬ 8 ∣ s ∧ t.find m addr = .error (.misaligned s) ∨
          8 ∣ s ∧ t.find m addr = .error (.zeroSizedObject s) ∧ m.load s = 0 ∨
          8 ∣ s ∧ t.find m addr = .error .overflow ∧ Word.limit ≤ s + m.load s ∨
          8 ∣ s ∧ t.find m addr = .ok s ∧ addr < s + m.load s ∧ s + m.load s < Word.limit)) ∧
    (∀ a ∈ t.covered, t.starts.blockAt a < t.starts.entries.size) ∧
    (∀ m' : Memory, (∀ s, t.covered.start ≤ s → s ≤ addr → m'.load s = m.load s) →
      t.find m' addr = t.find m addr) := by
  have hr := h.refines
  refine ⟨?_, fun a ha => hr.complete.blockAt_lt (Region.mem_of_includes hr.includes ha),
    fun m' => hr.find_congr⟩
  by_cases ha : addr ∈ t.covered
  · obtain ⟨hnone, hfind⟩ | ⟨first, hgreatest, hlow, hfind⟩ := hr.find_cases ha
    · exact .inr (.inl ⟨ha, hnone, hfind m⟩)
    · obtain ⟨sizes, s, hpasses, hle, hstops⟩ := walk_stops hgreatest.1.2 (m := m)
      have hsum := hpasses.stop_eq
      have hlength := List.length_le_sum_of_one_le sizes hpasses.accepted
      refine .inr (.inr ⟨first, sizes, s, ha, hgreatest, hpasses, hpasses.chain, by omega, hsum,
        by omega, hle, fun hd hs => hpasses.dvd_stop ?_ hs, ?_⟩)
      · obtain ⟨hge, hdvd⟩ := hgreatest.1.1.dvd
        exact (Nat.dvd_sub_iff_left hge hd).1 hdvd
      · rw [hfind]
        generalize walk m addr first = x at hstops
        cases hstops with
        | misaligned hd => exact .inl ⟨hd, rfl⟩
        | zero hd hz => exact .inr (.inl ⟨hd, rfl, hz⟩)
        | overflow hd hover => exact .inr (.inr (.inl ⟨hd, rfl, hover⟩))
        | found hd hlt hfits => exact .inr (.inr (.inr ⟨hd, rfl, hlt, hfits⟩))
  · exact .inl ⟨ha, find_of_not_mem ha⟩

/-- The header of a recorded start leads to a place where memory is zero. An address beyond it
cannot be looked up. -/
theorem Run.find_outcome_small : ∃ (t : CrossingMap) (m : Memory), Run t {4136} ∧
    t.find m 4200 = .error (.zeroSizedObject 4160) ∧ m.load 4160 = 0 ∧
    ∃ first sizes, IsGreatest {s | t.EntryStart s ∧ s ≤ 4200} first ∧
      Passes (0 < ·) m 4201 first sizes 4160 ∧ first + sizes.sum = 4160 := by
  have hrun : ∃ a b t : CrossingMap, ofReserved ⟨4096, 5120, by decide⟩ = .ok a ∧
      a.cover ⟨4096, 5120, by decide⟩ = .ok b ∧ b.record 4136 = .ok t ∧
      ∀ m, t.find m 4200 = walk m 4200 4136 :=
    ⟨_, _, _, rfl, rfl, rfl, fun _ => rfl⟩
  obtain ⟨a, b, t, ha, hb, ht, hwalk⟩ := hrun
  have hr : Run t {4136} := .record (kept_empty ▸ Run.cover (.reserve .new ha) hb) ht
  let m := Memory.zero.setWord 517 24
  have hread : m.readWord 4136 = .ok 24 :=
    Memory.readWord_eq_ok_iff.2 ⟨by decide, by simp [m, Memory.load, Memory.wordAt_setWord]⟩
  have hload : m.load 4160 = 0 := by simp [m, Memory.load, Memory.wordAt_setWord]
  have hfind : t.find m 4200 = .error (.zeroSizedObject 4160) := by
    rw [hwalk, walk, hread]
    simp only
    rw [walk, Memory.readWord_of_dvd (by decide), hload]
    simp [Word.limit]
  obtain ⟨h, -⟩ := Run.find_outcome hr m 4200
  simp only [hfind, Except.error.injEq, reduceCtorEq, and_false, false_or, false_and, or_false,
    Fault.zeroSizedObject.injEq] at h
  obtain ⟨first, sizes, s, -, hgreatest, hpasses, -, -, hs, -, -, -, -, rfl, -⟩ := h
  exact ⟨t, m, hr, hfind, hload, first, sizes, hgreatest, hpasses, hs.symm⟩

/-- A size that no object has leads from a recorded start to an address at which no header can lie.
Where the reservation begins at one, a recorded start is read back as such an address itself. -/
theorem Run.find_misaligned :
    (∃ (t : CrossingMap) (m : Memory), Run t {4096} ∧ 8 ∣ t.reserved.start ∧ m.load 4096 = 12 ∧
      4112 ∈ t.covered ∧ t.find m 4112 = .error (.misaligned 4108)) ∧
    ∃ t : CrossingMap, Run t {4104} ∧ ∀ m, t.find m 4104 = .error (.misaligned 4100) := by
  have hrun : ∃ a b t : CrossingMap, ofReserved ⟨4096, 5120, by decide⟩ = .ok a ∧
      a.cover ⟨4096, 5120, by decide⟩ = .ok b ∧ b.record 4096 = .ok t ∧ 8 ∣ t.reserved.start ∧
      4112 ∈ t.covered ∧ ∀ m, t.find m 4112 = walk m 4112 4096 :=
    ⟨_, _, _, rfl, rfl, rfl, by decide, by decide, fun _ => rfl⟩
  have hrun' : ∃ a b t : CrossingMap, ofReserved ⟨4100, 5124, by decide⟩ = .ok a ∧
      a.cover ⟨4100, 5124, by decide⟩ = .ok b ∧ b.record 4104 = .ok t ∧
      ∀ m, t.find m 4104 = walk m 4104 4100 :=
    ⟨_, _, _, rfl, rfl, rfl, fun _ => rfl⟩
  constructor
  · obtain ⟨a, b, t, ha, hb, ht, hd, hmem, hwalk⟩ := hrun
    have hload : (Memory.zero.setWord 512 12).load 4096 = 12 := by
      simp [Memory.load, Memory.wordAt_setWord]
    refine ⟨t, Memory.zero.setWord 512 12,
      .record (kept_empty ▸ Run.cover (.reserve .new ha) hb) ht, hd, hload, hmem, ?_⟩
    rw [hwalk, walk, Memory.readWord_of_dvd (by decide), hload]
    simp only
    rw [walk, Memory.readWord_of_not_dvd (by decide)]
    simp [Word.limit]
  · obtain ⟨a, b, t, ha, hb, ht, hwalk⟩ := hrun'
    refine ⟨t, .record (kept_empty ▸ Run.cover (.reserve .new ha) hb) ht, fun m => ?_⟩
    rw [hwalk, walk, Memory.readWord_of_not_dvd (by decide)]

end Tenured.CrossingMap
