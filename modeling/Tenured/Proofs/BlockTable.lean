import Tenured.BlockTable

/-!
# Block tables, by address

What a change of a block table does to the entry of a block, said by the addresses of the block:

* `BlockTable.get?_fill_of_le`: filling a range changes the entries of the blocks that meet it.
* `BlockTable.get?_recover`: a change of the covered part that keeps its start blanks the blocks
  between the two ends.
* `BlockTable.get?_recover_of_not_meets`, `BlockTable.get?_recover_of_meets`: whatever the two
  covered parts are, blocks of only one of them become blank, and blocks of both keep their entries
  if the start stays and both parts consist of whole blocks.
* `BlockTable.countP_slice`: the entries of a kind are counted in any range that all of them belong
  to.
-/

namespace Tenured

/-- The range between the ends of two regions with one start lies where both regions do. -/
theorem Region.includes_stops {r old new : Region} (ho : r.includes old) (hn : r.includes new)
    (hs : old.start = new.start) :
    r.includes ⟨min old.stop new.stop, max old.stop new.stop, by omega⟩ := by
  have h₁ := old.start_le_stop
  have h₂ := new.start_le_stop
  rw [includes_iff] at *
  dsimp only
  omega

namespace BlockTable

variable {α : Type} {t : BlockTable α}

/-! ## Blocks and addresses -/

theorem blockStart_blockAt_le {addr : Nat} (h : t.span.start ≤ addr) :
    t.blockStart (t.blockAt addr) ≤ addr := by
  simp only [blockStart, blockAt, blockSize]; omega

/-- The block of an address is the one in which it lies. -/
theorem blockAt_eq_iff {addr k : Nat} (h : t.span.start ≤ addr) :
    t.blockAt addr = k ↔ t.blockStart k ≤ addr ∧ addr < t.blockStart k + blockSize := by
  simp only [blockStart, blockAt, blockSize]; omega

/-- A block lies above every address of an earlier one. -/
theorem lt_blockStart {addr k : Nat} (h : t.span.start ≤ addr) (hk : t.blockAt addr < k) :
    addr < t.blockStart k := by
  simp only [blockStart, blockAt, blockSize] at *; omega

theorem blockAt_mono {a b : Nat} (h : a ≤ b) : t.blockAt a ≤ t.blockAt b := by
  simp only [blockAt, blockSize]; omega

theorem blockAt_lt {addr : Nat} (h : addr < t.span.stop) (hs : t.span.start ≤ addr)
    (hd : blockSize ∣ t.span.size) : t.blockAt addr < t.span.size / blockSize := by
  simp only [blockAt, blockSize, Region.size] at *; omega

theorem blockOf_eq_ok {addr : Nat} (h : addr ∈ t.span) : t.blockOf addr = .ok (t.blockAt addr) := by
  simp only [blockOf, check, h, if_true]; rfl

/-! ## Ranges -/

theorem get?_fill_of_le {start stop : Nat} (h : t.span.start ≤ start) (v : α) {k : Nat}
    (hk : k < t.entries.size) :
    (t.fill start stop v).get? k =
      if start < stop ∧ t.blockStart k < stop ∧ start < t.blockStart k + blockSize then some v
      else t.get? k := by
  rw [get?_fill]
  congr 1
  simp only [blocksIn, blockAt, blockStart, blockSize, eq_iff_iff]
  split <;> omega

theorem get?_eq_none {k : Nat} (hk : t.entries.size ≤ k) : t.get? k = none :=
  Array.getElem?_eq_none hk

theorem get?_recover {old new : Region} (h : t.span.start ≤ old.start)
    (hs : old.start = new.start) (blank : α) {k : Nat} (hk : k < t.entries.size)
    (ho : blockSize ∣ old.stop - t.span.start) (hn : blockSize ∣ new.stop - t.span.start) :
    (t.recover old new blank).get? k =
      if min old.stop new.stop ≤ t.blockStart k ∧ t.blockStart k < max old.stop new.stop then
        some blank
      else t.get? k := by
  have h₁ := old.start_le_stop
  have h₂ := new.start_le_stop
  rw [recover, if_pos hs, get?_fill_of_le (by omega) _ hk]
  congr 1
  simp only [blockStart, blockSize, eq_iff_iff] at *
  omega

/-- A table without entries has none after a change of its covered part. -/
theorem get?_recover_none {t : BlockTable (Option α)} (h : ∀ k, (t.get? k).getD none = none)
    (old new : Region) (k : Nat) : ((t.recover old new none).get? k).getD none = none := by
  unfold recover
  split
  · rw [get?_fill]
    split
    · rfl
    · exact h k
  · rw [get?_fill, get?_fill]
    split
    · rfl
    · split
      · rfl
      · exact h k

@[simp] theorem span_recover (old new : Region) (blank : α) :
    (t.recover old new blank).span = t.span := by
  unfold recover; split <;> rfl

@[simp] theorem size_recover (old new : Region) (blank : α) :
    (t.recover old new blank).entries.size = t.entries.size := by
  unfold recover; split <;> simp

@[simp] theorem span_set (k : Nat) (v : α) : (t.set k v).span = t.span := rfl

@[simp] theorem size_set (k : Nat) (v : α) : (t.set k v).entries.size = t.entries.size :=
  Array.size_setIfInBounds

/-! ## Blocks and regions -/

/-- The addresses of the block with an index. -/
def block (t : BlockTable α) (k : Nat) : Region :=
  ⟨t.blockStart k, t.blockStart k + blockSize, Nat.le_add_right ..⟩

/-- The block with an index and a region have an address in common. -/
def Meets (t : BlockTable α) (k : Nat) (r : Region) : Prop :=
  ∃ addr ∈ t.block k, addr ∈ r

/-- A region that consists of whole blocks, none of them below the span. -/
structure WholeBlocks (t : BlockTable α) (r : Region) : Prop where
  start_le : t.span.start ≤ r.start
  dvd_start : blockSize ∣ r.start - t.span.start
  dvd_stop : blockSize ∣ r.stop - t.span.start

/-- The table has an entry for every block of its span, which consists of whole blocks. -/
structure Complete (t : BlockTable α) : Prop where
  dvd_size : blockSize ∣ t.span.size
  size_eq : t.entries.size = t.span.size / blockSize

variable {r : Region} {k : Nat}

theorem meets_iff : t.Meets k r ↔
    r.start < r.stop ∧ t.blockStart k < r.stop ∧ r.start < t.blockStart k + blockSize := by
  simp only [Meets, block, Region.mem_def]
  constructor
  · rintro ⟨addr, h₁, h₂⟩
    omega
  · rintro ⟨h₁, h₂, h₃⟩
    exact ⟨max r.start (t.blockStart k), by simp only [blockSize] at *; omega, by omega⟩

instance (k : Nat) (r : Region) : Decidable (t.Meets k r) :=
  decidable_of_iff _ meets_iff.symm

@[simp] theorem meets_fill {start stop : Nat} {v : α} :
    (t.fill start stop v).Meets k r ↔ t.Meets k r := Iff.rfl

/-- An address lies in its own block and in no other. -/
theorem mem_block_iff {addr : Nat} (h : t.span.start ≤ addr) :
    addr ∈ t.block k ↔ t.blockAt addr = k :=
  (blockAt_eq_iff h).symm

/-- The blocks from that of one address to that of another are the blocks of the addresses between
them. -/
theorem between_blockAt_iff {a b : Nat} (ha : t.span.start ≤ a) (hab : a ≤ b) :
    t.blockAt a ≤ k ∧ k ≤ t.blockAt b ↔ ∃ addr ∈ t.block k, a ≤ addr ∧ addr ≤ b := by
  simp only [block, Region.mem_def, blockStart, blockAt, blockSize]
  constructor
  · rintro ⟨h₁, h₂⟩
    refine ⟨max a (t.blockStart k), ?_⟩
    simp only [blockStart, blockSize]
    omega
  · rintro ⟨addr, h₁, h₂⟩
    omega

/-- A region of whole blocks holds all of every block that it meets. -/
theorem WholeBlocks.mem_of_meets (hr : t.WholeBlocks r) (h : t.Meets k r) {addr : Nat}
    (ha : addr ∈ t.block k) : addr ∈ r := by
  obtain ⟨h₁, h₂, h₃⟩ := hr
  simp only [meets_iff, block, Region.mem_def, blockStart, blockSize] at *
  omega

theorem Complete.blockAt_lt (h : t.Complete) {addr : Nat} (ha : addr ∈ t.span) :
    t.blockAt addr < t.entries.size := by
  rw [h.size_eq]
  exact BlockTable.blockAt_lt ha.2 ha.1 h.dvd_size

/-- Only the span and the number of entries matter. -/
theorem Complete.congr {t' : BlockTable α} (h : t.Complete) (hspan : t'.span = t.span)
    (hsize : t'.entries.size = t.entries.size) : t'.Complete := by
  refine ⟨?_, ?_⟩
  · rw [hspan]; exact h.dvd_size
  · rw [hspan, hsize]; exact h.size_eq

theorem WholeBlocks.congr {t' : BlockTable α} (h : t.WholeBlocks r) (hspan : t'.span = t.span) :
    t'.WholeBlocks r := by
  obtain ⟨h₁, h₂, h₃⟩ := h
  rw [← hspan] at h₁ h₂ h₃
  exact ⟨h₁, h₂, h₃⟩

theorem Complete.ofSpan {span : Region} (h : blockSize ∣ span.size) (blank : α) :
    (ofSpan span blank).Complete :=
  ⟨h, Array.size_replicate⟩

theorem get?_ofSpan {span : Region} {blank : α} (hk : k < (ofSpan span blank).entries.size) :
    (ofSpan span blank).get? k = some blank := by
  rw [ofSpan, Array.size_replicate] at hk
  rw [get?, ofSpan, Array.getElem?_replicate, if_pos hk]

theorem get?_fill_of_includes (h : t.span.includes r) (v : α) (hk : k < t.entries.size) :
    (t.fill r.start r.stop v).get? k = if t.Meets k r then some v else t.get? k := by
  have hr := r.start_le_stop
  rw [Region.includes_iff] at h
  rw [get?_fill]
  congr 1
  simp only [meets_iff, blocksIn, blockAt, blockStart, blockSize, eq_iff_iff]
  split <;> omega

section Recover

variable {old new : Region} {blank : α} (ho : t.span.includes old) (hn : t.span.includes new)
  (hk : k < t.entries.size)
include ho hn

include hk in
/-- A change of the covered part blanks the blocks of what was covered or is going to be, unless
they belong to both. -/
theorem get?_recover_of_not_meets (h : ¬ (t.Meets k old ∧ t.Meets k new)) :
    (t.recover old new blank).get? k =
      if t.Meets k old ∨ t.Meets k new then some blank else t.get? k := by
  have h₁ := old.start_le_stop
  have h₂ := new.start_le_stop
  unfold recover
  split
  · rename_i hs
    rw [get?_fill_of_includes (Region.includes_stops ho hn hs) blank hk]
    congr 1
    simp only [meets_iff, blockSize, eq_iff_iff] at *
    omega
  · have hfill := get?_fill_of_includes (t := t.fill old.start old.stop blank) hn blank
      (k := k) (by rwa [size_fill])
    simp only [meets_fill, get?_fill_of_includes ho blank hk] at hfill
    rw [hfill]
    split <;> simp [*]

include hk in
/-- A block of both covered parts keeps its entry if the start stays. -/
theorem get?_recover_of_meets (h₁ : t.Meets k old) (h₂ : t.Meets k new)
    (hd₁ : t.WholeBlocks old) (hd₂ : t.WholeBlocks new) :
    (t.recover old new blank).get? k =
      if old.start = new.start then t.get? k else some blank := by
  unfold recover
  split
  · rename_i hs
    -- Both parts end at or above the end of the block, so the range between their ends misses it.
    rw [get?_fill_of_includes (Region.includes_stops ho hn hs) blank hk, if_neg]
    have := hd₁.dvd_stop
    have := hd₂.dvd_stop
    simp only [meets_iff, blockStart, blockSize] at *
    omega
  · have hfill := get?_fill_of_includes (t := t.fill old.start old.stop blank) hn blank
      (k := k) (by rwa [size_fill])
    rw [hfill, if_pos (meets_fill.2 h₂)]

/-- A block with an address of both covered parts keeps its entry if the start stays, unless the
parts end apart and the lower end lies in the block. -/
theorem get?_recover_blockAt {addr : Nat} (hs : old.start = new.start) (ha : addr ∈ old)
    (ha' : addr ∈ new) (hk : t.blockAt addr < t.entries.size) :
    (t.recover old new blank).get? (t.blockAt addr) =
      if old.stop ≠ new.stop ∧ t.blockAt (min old.stop new.stop) = t.blockAt addr then some blank
      else t.get? (t.blockAt addr) := by
  have hlow := (Region.mem_of_includes ho ha).1
  have hend : t.span.start ≤ min old.stop new.stop := by
    have := ha.2
    have := ha'.2
    omega
  have hle := blockStart_blockAt_le hlow
  rw [recover, if_pos hs, get?_fill_of_includes (Region.includes_stops ho hn hs) blank hk]
  congr 1
  rw [meets_iff, blockAt_eq_iff hend, eq_iff_iff]
  dsimp only
  have := ha.2
  have := ha'.2
  omega

end Recover

/-! ## Counting entries -/

theorem countP_range_any_getElem? (p : α → Bool) (l : List α) :
    (List.range l.length).countP (fun k => l[k]?.any p) = l.countP p := by
  induction l with
  | nil => rfl
  | cons a l ih =>
    rw [List.length_cons, List.range_succ_eq_map, List.countP_cons, List.countP_map,
      List.countP_cons, ← ih]
    rfl

/-- Numbers that are not counted can be left out at the upper end. -/
theorem countP_range_of_le {q : Nat → Bool} {m n : Nat} (h : m ≤ n)
    (hq : ∀ i, q i = true → i < m) : (List.range n).countP q = (List.range m).countP q := by
  obtain ⟨c, rfl⟩ := Nat.exists_eq_add_of_le h
  have hhigh : ((List.range c).map (m + ·)).countP q = 0 := by
    simp only [List.countP_eq_zero, List.mem_map]
    rintro _ ⟨i, -, rfl⟩ hqi
    exact absurd (hq _ hqi) (by omega)
  rw [List.range_add, List.countP_append, hhigh, Nat.add_zero]

/-- Numbers that are not counted can be left out at both ends. -/
theorem countP_range_of_support {q : Nat → Bool} {a n m : Nat}
    (hq : ∀ i, q i = true → a ≤ i ∧ i < a + n ∧ i < m) :
    (List.range m).countP q = (List.range n).countP fun i => q (a + i) := by
  have hlow : (List.range a).countP q = 0 := by
    simp only [List.countP_eq_zero, List.mem_range]
    intro i hi hqi
    exact absurd (hq i hqi).1 (by omega)
  calc (List.range m).countP q
      = (List.range (max m (a + n))).countP q :=
        (countP_range_of_le (Nat.le_max_left ..) fun i hi => (hq i hi).2.2).symm
    _ = (List.range (a + n)).countP q :=
        countP_range_of_le (Nat.le_max_right ..) fun i hi => (hq i hi).2.1
    _ = (List.range n).countP fun i => q (a + i) := by
        rw [List.range_add, List.countP_append, hlow, List.countP_map, Nat.zero_add]
        rfl

theorem countP_entries (p : α → Bool) :
    t.entries.countP p = (List.range t.entries.size).countP fun k => (t.get? k).any p := by
  rw [← Array.countP_toList, ← countP_range_any_getElem? p, Array.length_toList]
  simp only [get?, Array.getElem?_toList]

/-- Counting the entries of a kind in a range finds all of them if no other block has one. -/
theorem countP_slice (p : α → Bool)
    (hp : ∀ k v, t.get? k = some v → p v = true → t.Meets k r) :
    (t.slice r.start r.stop).countP p = t.entries.countP p := by
  have hsupport : ∀ k, (t.get? k).any p = true → t.blockAt r.start ≤ k ∧
      k < t.blockAt r.start + t.blocksIn r.start r.stop ∧ k < t.entries.size := by
    intro k hk
    obtain ⟨v, hv, hpv⟩ := (Option.any_eq_true ..).1 hk
    obtain ⟨hlt, h₁, h₂⟩ := meets_iff.1 (hp k v hv hpv)
    have hsize : k < t.entries.size := (Array.getElem?_eq_some_iff.1 hv).1
    simp only [blocksIn, if_pos hlt, blockAt, blockStart, blockSize] at *
    omega
  rw [countP_entries, countP_range_of_support hsupport, slice, List.countP_filterMap]
  refine List.countP_congr fun i _ => ?_
  rw [get?]
  cases t.entries[t.blockAt r.start + i]? <;> rfl

end BlockTable

end Tenured
