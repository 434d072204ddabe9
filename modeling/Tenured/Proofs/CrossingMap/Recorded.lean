import Mathlib.Data.Finset.Card
import Mathlib.Order.Bounds.Basic
import Tenured.Proofs.CrossingMap

/-!
# The map as a set of starts

Behind the entries of a crossing map stands a set of addresses, the starts that it was told and has
not forgotten. What a change of the covered part leaves of the set is `CrossingMap.kept`.

* `CrossingMap.LeastOf`: an entry is the least of a set of offsets, and blank if there is none.
* `CrossingMap.Refines`: the invariant. Every entry is the least offset of the starts in its block.
  There is one lemma for each call that keeps it: `Refines.cover`, `Refines.record`,
  `Refines.forget`.
* `CrossingMap.Run.refines`: it holds of every map that a new one becomes.
* `CrossingMap.Run.entries_least`: what the entries, and the answers read off them, say about the
  set.
-/

namespace Tenured.CrossingMap

open BlockTable (blockSize)

variable {t t' : CrossingMap} {R : Finset Nat} {region : Region} {addr k : Nat}

/-! ## The least offset -/

/-- The least number of a set, if it has one. -/
def LeastOf (S : Set Nat) : Option Nat → Prop
  | none => S = ∅
  | some n => IsLeast S n

namespace LeastOf

variable {S : Set Nat} {o o' : Option Nat}

theorem unique (h : LeastOf S o) (h' : LeastOf S o') : o = o' := by
  rcases o with - | n <;> rcases o' with - | n'
  · rfl
  · exact absurd h'.1 (by simp [show S = ∅ from h])
  · exact absurd h.1 (by simp [show S = ∅ from h'])
  · rw [IsLeast.unique h h']

theorem isSome_iff (h : LeastOf S o) : o.isSome ↔ S.Nonempty := by
  rcases o with - | n
  · simp [show S = ∅ from h]
  · exact ⟨fun _ => ⟨n, h.1⟩, fun _ => rfl⟩

/-- A number joins the set. -/
theorem insert (h : LeastOf S o) (n : Nat) : LeastOf (Insert.insert n S) (some (earlier n o)) := by
  rcases o with - | m
  · rw [show S = ∅ from h]
    simp [LeastOf, earlier]
  · exact IsLeast.insert n h

end LeastOf

/-- A start of the set lies in the block with an index. -/
def Occupied (t : CrossingMap) (R : Finset Nat) (k : Nat) : Prop :=
  ∃ addr ∈ R, addr ∈ t.starts.block k

/-- How many words from the start of a block the starts in it are. -/
def offsets (t : CrossingMap) (R : Finset Nat) (k : Nat) : Set Nat :=
  {n | ∃ addr ∈ R, addr ∈ t.starts.block k ∧ t.offsetIn k addr = n}

theorem offsets_nonempty_iff : (t.offsets R k).Nonempty ↔ t.Occupied R k :=
  ⟨fun ⟨_, addr, ha, hk, _⟩ => ⟨addr, ha, hk⟩, fun ⟨addr, ha, hk⟩ => ⟨_, addr, ha, hk, rfl⟩⟩

theorem offsets_eq_empty (h : ¬ t.Occupied R k) : t.offsets R k = ∅ := by
  rwa [← Set.not_nonempty_iff_eq_empty, offsets_nonempty_iff]

@[simp] theorem offsets_empty : t.offsets ∅ k = ∅ := by
  simp [offsets]

theorem offsets_congr (h : t'.reserved = t.reserved) : t'.offsets R k = t.offsets R k := by
  simp only [offsets, offsetIn, BlockTable.block, BlockTable.blockStart,
    show t'.starts.span = t.starts.span from h]

theorem offsets_insert_of_mem (h : addr ∈ t.starts.block k) :
    t.offsets (insert addr R) k = insert (t.offsetIn k addr) (t.offsets R k) := by
  ext n
  simp [offsets, h, eq_comm]

theorem offsets_insert_of_not_mem (h : addr ∉ t.starts.block k) :
    t.offsets (insert addr R) k = t.offsets R k := by
  ext n
  simp [offsets, h]

/-- What is left of a set of starts by a change of the covered part: the starts in the new part if
it begins where the old one does. -/
def kept (t : CrossingMap) (R : Finset Nat) (region : Region) : Finset Nat :=
  if t.covered.start = region.start then {addr ∈ R | addr ∈ region} else ∅

theorem mem_kept :
    addr ∈ t.kept R region ↔ t.covered.start = region.start ∧ addr ∈ R ∧ addr ∈ region := by
  unfold kept
  split <;> simp [*]

@[simp] theorem kept_empty : t.kept ∅ region = ∅ := by
  simp [kept]

/-- The starts in a block of the new covered part all stay, or all go. -/
theorem offsets_kept (hw : t.starts.WholeBlocks region) : t.offsets (t.kept R region) k =
    if t.covered.start = region.start ∧ t.starts.Meets k region then t.offsets R k else ∅ := by
  split
  · rename_i h
    ext n
    constructor
    · rintro ⟨addr, ha, hk⟩
      exact ⟨addr, (mem_kept.1 ha).2.1, hk⟩
    · rintro ⟨addr, ha, hk, hn⟩
      exact ⟨addr, mem_kept.2 ⟨h.1, ha, hw.mem_of_meets h.2 hk⟩, hk, hn⟩
  · rename_i h
    refine offsets_eq_empty ?_
    rintro ⟨addr, ha, hk⟩
    obtain ⟨hs, -, hr⟩ := mem_kept.1 ha
    exact h ⟨hs, addr, hk, hr⟩

/-! ## The invariant -/

/-- The map has an entry for every block of the reservation, the least offset of the starts in it,
and all starts are covered. -/
structure Refines (t : CrossingMap) (R : Finset Nat) : Prop where
  complete : t.starts.Complete
  includes : t.reserved.includes t.covered
  whole : t.starts.WholeBlocks t.covered
  mem_covered : ∀ addr ∈ R, addr ∈ t.covered
  least : ∀ k, LeastOf (t.offsets R k) (t.entry k)

theorem entry_eq_none_of_size_le (h : t.starts.entries.size ≤ k) : t.entry k = none := by
  rw [entry, BlockTable.get?_eq_none h]
  rfl

theorem isSome_entry : (t.entry k).isSome = (t.starts.get? k).any Option.isSome := by
  unfold entry
  rcases t.starts.get? k with - | - | - <;> rfl

namespace Refines

theorem empty : Refines .empty ∅ where
  complete := ⟨by decide, by decide⟩
  includes := by decide
  whole := ⟨by decide, by decide, by decide⟩
  mem_covered := by simp
  least k := by
    rw [entry_eq_none_of_size_le (Nat.zero_le k)]
    exact offsets_empty

theorem ofReserved (h : ofReserved region = .ok t) : Refines t ∅ := by
  obtain ⟨hd, rfl⟩ := ofReserved_eq_ok h
  refine ⟨.ofSpan hd none, Region.includes_iff.2 (.inl rfl), ⟨Nat.le_refl _, ?_, ?_⟩, by simp,
    fun k => ?_⟩
  · simp [BlockTable.ofSpan, Region.emptyAt]
  · simp [BlockTable.ofSpan, Region.emptyAt]
  · rw [entry_ofSpan]
    exact offsets_empty

variable (h : Refines t R)
include h

theorem mem_reserved (ha : addr ∈ R) : addr ∈ t.reserved :=
  Region.mem_of_includes h.includes (h.mem_covered addr ha)

theorem isSome_entry_iff : (t.entry k).isSome ↔ t.Occupied R k := by
  rw [(h.least k).isSome_iff, offsets_nonempty_iff]

theorem entry_eq_none (hm : ¬ t.starts.Meets k t.covered) : t.entry k = none := by
  rw [← Option.not_isSome_iff_eq_none, h.isSome_entry_iff]
  rintro ⟨addr, ha, hk⟩
  exact hm ⟨addr, hk, h.mem_covered addr ha⟩

/-- A change of the covered part keeps the entries of the blocks in the new part if it begins where
the old one does. All others are blank after it. -/
theorem entry_of_cover (hc : t.cover region = .ok t') : t'.entry k =
    if t.covered.start = region.start ∧ t.starts.Meets k region then t.entry k else none := by
  obtain ⟨hi, hw, rfl⟩ := cover_eq_ok hc
  rcases Nat.lt_or_ge k t.starts.entries.size with hk | hk
  · by_cases hboth : t.starts.Meets k t.covered ∧ t.starts.Meets k region
    · rw [entry, BlockTable.get?_recover_of_meets h.includes hi hk hboth.1 hboth.2 h.whole hw]
      split <;> simp [*, entry]
    · rw [entry, BlockTable.get?_recover_of_not_meets h.includes hi hk hboth]
      by_cases hold : t.starts.Meets k t.covered
      · have hnew : ¬ t.starts.Meets k region := fun hnew => hboth ⟨hold, hnew⟩
        simp [hold, hnew]
      · have hnone := h.entry_eq_none hold
        rw [hnone, ite_self]
        split
        · rfl
        · exact hnone
  · rw [entry_eq_none_of_size_le hk, ite_self]
    exact entry_eq_none_of_size_le (by simpa using hk)

theorem cover (hc : t.cover region = .ok t') : Refines t' (t.kept R region) := by
  have hentry := fun k => h.entry_of_cover hc (k := k)
  obtain ⟨hi, hw, rfl⟩ := cover_eq_ok hc
  have hspan := BlockTable.span_recover (t := t.starts) t.covered region none
  refine ⟨h.complete.congr hspan (BlockTable.size_recover ..), ?_, hw.congr hspan,
    fun addr ha => (mem_kept.1 ha).2.2, fun k => ?_⟩
  · show (t.starts.recover t.covered region none).span.includes region
    rw [hspan]
    exact hi
  · have hoff : offsets ⟨t.starts.recover t.covered region none, region⟩ (t.kept R region) k =
        t.offsets (t.kept R region) k := offsets_congr hspan
    rw [hoff, hentry, offsets_kept hw]
    split
    · exact h.least k
    · rfl

theorem record (hr : t.record addr = .ok t') : Refines t' (insert addr R) := by
  obtain ⟨hc, -, hs, rfl⟩ := record_eq_ok hr
  refine ⟨h.complete.congr rfl (BlockTable.size_set ..), h.includes, h.whole.congr rfl, ?_,
    fun k => ?_⟩
  · exact Finset.forall_mem_insert .. |>.2 ⟨hc, h.mem_covered⟩
  · show LeastOf (t.offsets (insert addr R) k) _
    rw [entry_recordAt]
    by_cases hk : t.starts.blockAt addr = k
    · subst hk
      rw [if_pos ⟨rfl, h.complete.blockAt_lt hs⟩,
        offsets_insert_of_mem ((BlockTable.mem_block_iff hs.1).2 rfl)]
      exact (h.least _).insert _
    · rw [if_neg fun hh => hk hh.1,
        offsets_insert_of_not_mem fun hmem => hk ((BlockTable.mem_block_iff hs.1).1 hmem)]
      exact h.least k

theorem entry_forget : t.forget.entry k = none := by
  rcases Nat.lt_or_ge k t.starts.entries.size with hk | hk
  · rw [entry, CrossingMap.forget, BlockTable.get?_fill_of_includes h.includes none hk]
    split
    · rfl
    · rename_i hm
      exact h.entry_eq_none hm
  · exact entry_eq_none_of_size_le (by simpa [CrossingMap.forget] using hk)

theorem forget : Refines t.forget ∅ := by
  refine ⟨h.complete.congr rfl (BlockTable.size_fill ..), h.includes, h.whole.congr rfl, by simp,
    fun k => ?_⟩
  rw [h.entry_forget]
  exact offsets_empty

/-! ## Answers -/

theorem occupied_iff : t.Occupied R k ↔ ∃ addr ∈ R, t.starts.blockAt addr = k := by
  refine exists_congr fun addr => and_congr_right fun ha => ?_
  exact BlockTable.mem_block_iff (h.mem_reserved ha).1

theorem hasStart (ha : addr ∈ t.reserved) : ∃ b, t.hasStart addr = .ok b ∧
    (b = true ↔ t.Occupied R (t.starts.blockAt addr)) :=
  ⟨_, hasStart_eq_ok ha, h.isSome_entry_iff⟩

/-- A range touches the blocks from that of its first address to that of its last one. -/
theorem startsIn {start stop : Nat}
    (hin : start < stop → start ∈ t.reserved ∧ stop - 1 ∈ t.reserved) :
    ∃ b, t.startsIn start stop = .ok b ∧ (b = true ↔
      ∃ k, (∃ addr ∈ t.starts.block k, start ≤ addr ∧ addr < stop) ∧ t.Occupied R k) := by
  rcases Nat.lt_or_ge start stop with hlt | hge
  · obtain ⟨h₁, h₂⟩ := hin hlt
    refine ⟨_, startsIn_eq_ok hlt h₁ h₂, ?_⟩
    rw [any_slice_iff hlt]
    refine exists_congr fun k => ?_
    rw [h.isSome_entry_iff, ← and_assoc,
      BlockTable.between_blockAt_iff h₁.1 (Nat.le_sub_one_of_lt hlt)]
    simp only [Nat.le_sub_one_iff_lt (Nat.zero_lt_of_lt hlt)]
  · refine ⟨false, ?_, ?_⟩
    · rw [CrossingMap.startsIn, if_pos hge]
      rfl
    · simp only [Bool.false_eq_true, false_iff]
      rintro ⟨k, ⟨addr, -, h₁, h₂⟩, -⟩
      omega

theorem startCount_eq : t.startCount = (R.image t.starts.blockAt).card := by
  have himage : R.image t.starts.blockAt =
      (Finset.range t.starts.entries.size).filter fun k => (t.entry k).isSome := by
    ext k
    rw [Finset.mem_image, Finset.mem_filter, Finset.mem_range, h.isSome_entry_iff,
      h.occupied_iff]
    refine ⟨fun hk => ⟨?_, hk⟩, fun hk => hk.2⟩
    obtain ⟨addr, ha, rfl⟩ := hk
    exact h.complete.blockAt_lt (h.mem_reserved ha)
  calc t.startCount = t.starts.entries.countP Option.isSome := by
        refine BlockTable.countP_slice _ fun k o ho hsome => ?_
        by_contra hm
        have hnone := h.entry_eq_none hm
        rw [entry, ho, Option.getD_some] at hnone
        rw [hnone] at hsome
        exact absurd hsome (by decide)
    _ = (List.range t.starts.entries.size).countP fun k => (t.entry k).isSome := by
        simp only [BlockTable.countP_entries, isSome_entry]
    _ = (R.image t.starts.blockAt).card := by
        rw [himage, List.countP_eq_length_filter]
        show _ = ((List.range _).filter fun k => decide ((t.entry k).isSome = true)).length
        simp

end Refines

/-! ## Runs -/

/-- What becomes of a new map by calls that end without a fault, and the starts that are recorded
then. An attempt to give it a reservation that is refused leaves it as it was. -/
inductive Run : CrossingMap → Finset Nat → Prop
  | new : Run .empty ∅
  | reserve {t t' : CrossingMap} {R : Finset Nat} {reserved : Region} (h : Run t R)
    (hi : ofReserved reserved = .ok t') : Run t' ∅
  | cover {t t' : CrossingMap} {R : Finset Nat} {region : Region} (h : Run t R)
    (hc : t.cover region = .ok t') : Run t' (t.kept R region)
  | record {t t' : CrossingMap} {R : Finset Nat} {addr : Nat} (h : Run t R)
    (hr : t.record addr = .ok t') : Run t' (insert addr R)
  | forget {t : CrossingMap} {R : Finset Nat} (h : Run t R) : Run t.forget ∅

theorem Run.refines (h : Run t R) : Refines t R := by
  induction h with
  | new => exact .empty
  | reserve _ hi _ => exact .ofReserved hi
  | cover _ hc ih => exact ih.cover hc
  | record _ hr ih => exact ih.record hr
  | forget _ ih => exact ih.forget

/-- Every entry is the least offset of the recorded starts in its block, and blank if there is none;
so a block outside the covered part has a blank entry, and in what order the starts were recorded
makes no difference. The blocks that are said to have a start, and are counted, are those in which
one of the recorded starts lies. -/
theorem Run.entries_least (h : Run t R) :
    t.starts.entries.size = t.reserved.size / blockSize ∧
    (∀ k, LeastOf (t.offsets R k) (t.entry k)) ∧
    (∀ k, ¬ t.starts.Meets k t.covered → t.entry k = none) ∧
    (∀ t', Run t' R → t'.reserved = t.reserved → ∀ k, t'.entry k = t.entry k) ∧
    (∀ addr ∈ t.reserved, ∃ b, t.hasStart addr = .ok b ∧
      (b = true ↔ t.Occupied R (t.starts.blockAt addr))) ∧
    t.startCount = (R.image t.starts.blockAt).card ∧
    (∀ start stop, (start < stop → start ∈ t.reserved ∧ stop - 1 ∈ t.reserved) →
      ∃ b, t.startsIn start stop = .ok b ∧ (b = true ↔
        ∃ k, (∃ addr ∈ t.starts.block k, start ≤ addr ∧ addr < stop) ∧ t.Occupied R k)) := by
  have hr := h.refines
  refine ⟨hr.complete.size_eq, hr.least, fun k => hr.entry_eq_none, fun t' h' hspan k => ?_,
    fun addr => hr.hasStart, hr.startCount_eq, fun start stop => hr.startsIn⟩
  have hoff : t'.offsets R k = t.offsets R k := offsets_congr hspan
  exact (hoff ▸ h'.refines.least k).unique (hr.least k)

/-- The later of two starts in a block is recorded first. After the covered part lost their block
and regained it, there is only the start before it. -/
theorem Run.entries_least_small : ∃ t₁ t₂ : CrossingMap,
    Run t₁ {4624, 4648, 4136} ∧ t₁.entry 1 = some 2 ∧ t₁.startCount = 2 ∧
    Run t₂ {4136} ∧ t₂.covered = t₁.covered ∧ t₂.entry 1 = none ∧ t₂.startCount = 1 := by
  have hrun : ∃ a b c d t₁ e t₂ : CrossingMap, ofReserved ⟨4096, 5632, by decide⟩ = .ok a ∧
      a.cover ⟨4096, 5120, by decide⟩ = .ok b ∧ b.record 4136 = .ok c ∧ c.record 4648 = .ok d ∧
      d.record 4624 = .ok t₁ ∧ t₁.cover ⟨4096, 4608, by decide⟩ = .ok e ∧
      e.cover ⟨4096, 5120, by decide⟩ = .ok t₂ ∧
      (a.kept ∅ ⟨4096, 5120, by decide⟩ = ∅ ∧
        t₁.kept {4624, 4648, 4136} ⟨4096, 4608, by decide⟩ = {4136} ∧
        e.kept {4136} ⟨4096, 5120, by decide⟩ = {4136}) ∧
      t₂.covered = t₁.covered ∧ t₁.entry 1 = some 2 ∧
      (({4624, 4648, 4136} : Finset Nat).image t₁.starts.blockAt).card = 2 ∧
      (({4136} : Finset Nat).image t₂.starts.blockAt).card = 1 ∧
      4136 ∉ t₂.starts.block 1 :=
    ⟨_, _, _, _, _, _, _, rfl, rfl, rfl, rfl, rfl, rfl, rfl, by decide, rfl,
      by decide, by decide, by decide, by decide⟩
  obtain ⟨a, b, c, d, t₁, e, t₂, ha, hb, hc, hd, h₁, he, h₂, ⟨ka, k₁, k₂⟩, hcov, hentry, n₁, n₂,
    hout⟩ := hrun
  have hrb : Run b ∅ := ka ▸ Run.cover (.reserve .new ha) hb
  have hr₁ : Run t₁ {4624, 4648, 4136} := .record (.record (.record hrb hc) hd) h₁
  have hre : Run e {4136} := k₁ ▸ Run.cover hr₁ he
  have hr₂ : Run t₂ {4136} := k₂ ▸ Run.cover hre h₂
  obtain ⟨-, -, -, -, -, hcount₁, -⟩ := Run.entries_least hr₁
  obtain ⟨-, hleast, -, -, -, hcount₂, -⟩ := Run.entries_least hr₂
  have hnone : t₂.entry 1 = none :=
    (hleast 1).unique (offsets_eq_empty (by simpa [Occupied] using hout))
  exact ⟨t₁, t₂, hr₁, hentry, hcount₁.trans n₁, hr₂, hcov, hnone, hcount₂.trans n₂⟩

end Tenured.CrossingMap
