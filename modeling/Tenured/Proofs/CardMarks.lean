import Tenured.CardMarks
import Tenured.Proofs.Attempt
import Tenured.Proofs.BlockTable

/-!
# Cards outside the covered part

A region can be covered that ends inside a card, or that is empty and lies anywhere. Whatever is
covered, marked and unmarked, in whichever order, a card without a covered address is clean. A card
that stays covered keeps its mark when the end of the covered part moves, unless the lower one of
the two ends lies inside the card.

* `CardMarks.Clean`: the invariant. There is one lemma for each call that keeps it: `Clean.cover`,
  `Clean.mark`, `Clean.markAll`, `Clean.unmarkAll`.
* `CardMarks.Run.clean`: it holds of every table that a new one becomes.
* `CardMarks.Run.clean_outside`: what follows for the cards that become covered, and for the number
  of dirty cards.
* `CardMarks.Run.keeps_marks`: what a change of the covered part leaves of the marks in it.
-/

namespace Tenured.CardMarks

open BlockTable (blockSize)

variable {t t' : CardMarks} {heap region : Region} {addr : Nat}

/-! ## Calls that end without a fault -/

theorem ofHeap_eq_ok (h : ofHeap heap = .ok t) :
    blockSize ∣ heap.size ∧ t = ⟨.ofSpan heap false, .emptyAt heap.start⟩ := by
  unfold ofHeap at h
  split at h
  · cases h
  · rename_i hn
    simp only [Bool.or_eq_true, Bool.not_eq_true', not_or, Bool.not_eq_false, isCardStart,
      beq_iff_eq,
      cardSize, blockSize] at hn
    refine ⟨?_, (Except.ok.inj h).symm⟩
    simp only [blockSize, Region.size]
    omega

theorem cover_eq_ok (h : t.cover region = .ok t') :
    t.heap.includes region ∧ t' = ⟨t.cards.recover t.covered region false, region⟩ := by
  obtain ⟨_, hi, h⟩ := bind_eq_ok_iff.1 h
  obtain ⟨_, -, h⟩ := bind_eq_ok_iff.1 h
  cases h
  exact ⟨check_eq_ok_iff.1 hi, rfl⟩

theorem mark_eq_ok (h : t.mark addr = .ok t') : addr ∈ t.covered ∧ addr ∈ t.heap ∧
    t' = { t with cards := t.cards.set (t.cards.blockAt addr) true } := by
  obtain ⟨_, hc, h⟩ := bind_eq_ok_iff.1 h
  obtain ⟨k, hk, h⟩ := bind_eq_ok_iff.1 h
  obtain ⟨_, hs, hk⟩ := bind_eq_ok_iff.1 hk
  cases hk
  cases h
  exact ⟨check_eq_ok_iff.1 hc, check_eq_ok_iff.1 hs, rfl⟩

/-! ## The invariant -/

/-- There is a card for every block of the heap, and the cards that do not meet the covered part are
clean. -/
structure Clean (heap : Region) (t : CardMarks) : Prop where
  heap_eq : t.heap = heap
  complete : t.cards.Complete
  includes : heap.includes t.covered
  clean : ∀ k < t.cards.entries.size, ¬ t.cards.Meets k t.covered → t.cards.get? k = some false

namespace Clean

theorem ofHeap (h : CardMarks.ofHeap heap = .ok t) : Clean heap t := by
  obtain ⟨hd, rfl⟩ := ofHeap_eq_ok h
  exact ⟨rfl, .ofSpan hd false, Region.includes_iff.2 (.inl rfl),
    fun k hk _ => BlockTable.get?_ofSpan hk⟩

variable (h : Clean heap t)
include h

theorem span_includes : t.cards.span.includes t.covered := by
  rw [show t.cards.span = heap from h.heap_eq]
  exact h.includes

/-- A card that is not covered before a change of the covered part, or not after it, is clean after
it. -/
theorem get?_of_cover (hc : t.cover region = .ok t') {k : Nat} (hk : k < t.cards.entries.size)
    (hm : ¬ (t.cards.Meets k t.covered ∧ t.cards.Meets k region)) :
    t'.cards.get? k = some false := by
  obtain ⟨hi, rfl⟩ := cover_eq_ok hc
  rw [BlockTable.get?_recover_of_not_meets h.span_includes hi hk hm]
  split
  · rfl
  · rename_i hn
    exact h.clean k hk fun hold => hn (.inl hold)

theorem cover (hc : t.cover region = .ok t') : Clean heap t' := by
  have hget := fun k => h.get?_of_cover hc (k := k)
  obtain ⟨hi, rfl⟩ := cover_eq_ok hc
  have hspan := BlockTable.span_recover (t := t.cards) t.covered region false
  refine ⟨hspan.trans h.heap_eq, h.complete.congr hspan (BlockTable.size_recover ..),
    h.heap_eq ▸ hi, fun k hk hm => ?_⟩
  rw [BlockTable.size_recover] at hk
  refine hget k hk fun hboth => hm ?_
  simpa [BlockTable.meets_iff, BlockTable.blockStart] using hboth.2

theorem mark (hm : t.mark addr = .ok t') : Clean heap t' := by
  obtain ⟨hc, hs, rfl⟩ := mark_eq_ok hm
  refine ⟨h.heap_eq, h.complete.congr rfl (BlockTable.size_set ..), h.includes, fun k hk hn => ?_⟩
  rw [BlockTable.size_set] at hk
  rw [BlockTable.get?_set, if_neg]
  · exact h.clean k hk hn
  · rintro ⟨hka, -⟩
    exact hn ⟨addr, (BlockTable.mem_block_iff hs.1).2 hka, hc⟩

/-- Filling a part of the heap keeps the invariant if it makes cards clean, or dirty only where they
are covered. -/
theorem fill {part : Region} {dirty : Bool} (hi : heap.includes part)
    (hp : dirty = true → ∀ addr ∈ part, addr ∈ t.covered) :
    Clean heap { t with cards := t.cards.fill part.start part.stop dirty } := by
  refine ⟨h.heap_eq, h.complete.congr rfl (BlockTable.size_fill ..), h.includes,
    fun k hk hn => ?_⟩
  rw [BlockTable.size_fill] at hk
  have hspan : t.cards.span.includes part := by
    rw [show t.cards.span = heap from h.heap_eq]
    exact hi
  rw [BlockTable.get?_fill_of_includes hspan dirty hk]
  split
  · rename_i hmeets
    obtain ⟨a, hak, hap⟩ := hmeets
    cases dirty with
    | false => rfl
    | true => exact absurd ⟨a, hak, hp rfl a hap⟩ hn
  · exact h.clean k hk hn

theorem markAll (region : Region) : Clean heap (t.markAll region) := by
  refine h.fill ?_ fun _ addr ha => (Region.mem_inter.1 ha).2
  have hi := h.includes
  simp only [Region.includes_iff, Region.inter] at hi ⊢
  omega

theorem unmarkAll (region : Region) : Clean heap (t.unmarkAll region) := by
  refine h.fill ?_ fun hd => absurd hd Bool.false_ne_true
  rw [h.heap_eq]
  simp only [Region.includes_iff, Region.inter]
  omega

/-- All dirty cards are among those that the covered part touches. -/
theorem markedCount_eq : t.markedCount = t.cards.entries.count true := by
  rw [markedCount, List.count, Array.count]
  refine BlockTable.countP_slice _ fun k v hv hd => ?_
  by_cases hm : t.cards.Meets k t.covered
  · exact hm
  · have hk := (Array.getElem?_eq_some_iff.1 hv).1
    rw [h.clean k hk hm] at hv
    cases hv
    cases hd

end Clean

/-! ## Runs -/

/-- What becomes of the table of a heap by calls that end without a fault. -/
inductive Run (heap : Region) : CardMarks → Prop
  | new {t : CardMarks} (ht : ofHeap heap = .ok t) : Run heap t
  | cover {t t' : CardMarks} {region : Region} (h : Run heap t) (hc : t.cover region = .ok t') :
    Run heap t'
  | mark {t t' : CardMarks} {addr : Nat} (h : Run heap t) (hm : t.mark addr = .ok t') : Run heap t'
  | markAll {t : CardMarks} (h : Run heap t) (region : Region) : Run heap (t.markAll region)
  | unmarkAll {t : CardMarks} (h : Run heap t) (region : Region) : Run heap (t.unmarkAll region)

/-- In every state a card that does not meet the covered part is clean. -/
theorem Run.clean (h : Run heap t) : Clean heap t := by
  induction h with
  | new ht => exact .ofHeap ht
  | cover _ hc ih => exact ih.cover hc
  | mark _ hm ih => exact ih.mark hm
  | markAll _ region ih => exact ih.markAll region
  | unmarkAll _ region ih => exact ih.unmarkAll region

/-- In every state there is a card for every block of the heap. A card that does not meet the
covered part is clean, and one that comes to meet it by a change of that part is clean before and
after. So the number of dirty cards in the covered part is the number of all dirty cards. -/
theorem Run.clean_outside (h : Run heap t) :
    t.heap = heap ∧ t.cards.entries.size = heap.size / cardSize ∧
    (∀ k < heap.size / cardSize, ¬ t.cards.Meets k t.covered → t.cards.get? k = some false) ∧
    (∀ region t', t.cover region = .ok t' → ∀ k < heap.size / cardSize,
      ¬ t.cards.Meets k t.covered → t.cards.Meets k region →
      t.cards.get? k = some false ∧ t'.cards.get? k = some false) ∧
    t.markedCount = t.cards.entries.count true := by
  have hclean := h.clean
  have hsize : t.cards.entries.size = heap.size / cardSize := by
    rw [hclean.complete.size_eq, ← hclean.heap_eq]
    rfl
  rw [← hsize]
  refine ⟨hclean.heap_eq, rfl, hclean.clean, fun region t' hc k hk hout _ => ?_,
    hclean.markedCount_eq⟩
  exact ⟨hclean.clean k hk hout, hclean.get?_of_cover hc hk fun hboth => hout hboth.1⟩

/-- Of four cards two are covered, the second one in part, and both are dirty. The second one is
clean when it is not covered any more. -/
theorem Run.clean_outside_small : ∃ t₁ t₂ t₃ : CardMarks,
    Run ⟨4096, 6144, by decide⟩ t₁ ∧ t₁.cover ⟨4096, 4700, by decide⟩ = .ok t₂ ∧
    (t₂.markAll ⟨0, 8192, by decide⟩).markedCount = 2 ∧
    (t₂.markAll ⟨0, 8192, by decide⟩).cover ⟨4096, 4608, by decide⟩ = .ok t₃ ∧
    t₃.cards.get? 1 = some false ∧ t₃.cards.entries.count true = 1 := by
  have hrun : ∃ t₁ t₂ t₃ : CardMarks, ofHeap ⟨4096, 6144, by decide⟩ = .ok t₁ ∧
      t₁.cover ⟨4096, 4700, by decide⟩ = .ok t₂ ∧
      (t₂.markAll ⟨0, 8192, by decide⟩).markedCount = 2 ∧
      (t₂.markAll ⟨0, 8192, by decide⟩).cover ⟨4096, 4608, by decide⟩ = .ok t₃ ∧
      ¬ t₃.cards.Meets 1 t₃.covered ∧ t₃.markedCount = 1 :=
    ⟨_, _, _, rfl, rfl, by decide, rfl, by decide, by decide⟩
  obtain ⟨t₁, t₂, t₃, h₁, h₂, hcount, h₃, hout, hcount'⟩ := hrun
  have hr : Run ⟨4096, 6144, by decide⟩ t₃ := .cover (.markAll (.cover (.new h₁) h₂) _) h₃
  obtain ⟨-, -, hclean, -, hall⟩ := Run.clean_outside hr
  exact ⟨t₁, t₂, t₃, .new h₁, h₂, hcount, h₃, hclean 1 (by decide) hout, hall ▸ hcount'⟩

/-! ## What stays covered -/

theorem isCardStart_iff : isCardStart addr = true ↔ blockSize ∣ addr := by
  rw [isCardStart, beq_iff_eq, cardSize, Nat.dvd_iff_mod_eq_zero]

theorem isMarked_eq_ok (ha : addr ∈ t.heap) :
    t.isMarked addr = .ok ((t.cards.get? (t.cards.blockAt addr)).getD false) := by
  rw [isMarked, BlockTable.blockOf_eq_ok ha]
  rfl

theorem Run.isCardStart_start (h : Run heap t) : isCardStart heap.start = true := by
  induction h with
  | new ht =>
    unfold ofHeap at ht
    split at ht
    · cases ht
    · simp_all
  | cover _ _ ih => exact ih
  | mark _ _ ih => exact ih
  | markAll _ _ ih => exact ih
  | unmarkAll _ _ ih => exact ih

/-- The covered part does not end where a region ends, and the lower one of the two ends lies in the
card of an address. -/
def EndsInCard (t : CardMarks) (region : Region) (addr : Nat) : Prop :=
  t.covered.stop ≠ region.stop ∧
    t.cards.blockAt (min t.covered.stop region.stop) = t.cards.blockAt addr

instance (t : CardMarks) (region : Region) (addr : Nat) : Decidable (t.EndsInCard region addr) :=
  inferInstanceAs (Decidable (_ ∧ _))

/-- An end at the start of a card lies in the card of no address below it. -/
theorem not_endsInCard (hh : isCardStart t.heap.start = true)
    (hend : isCardStart (min t.covered.stop region.stop) = true) (hs : addr ∈ t.heap)
    (ha : addr ∈ t.covered) (ha' : addr ∈ region) : ¬ t.EndsInCard region addr := by
  rintro ⟨-, hcard⟩
  rw [isCardStart_iff] at hh hend
  have := hs.1
  have := ha.2
  have := ha'.2
  simp only [heap, BlockTable.blockAt, blockSize] at *
  omega

namespace Clean

variable (h : Clean heap t)
include h

theorem mem_heap (ha : addr ∈ t.covered) : addr ∈ t.heap :=
  Region.mem_of_includes h.span_includes ha

/-- Where the start of the covered part stays, the cards of the addresses that stay covered keep
their marks, except for the card in which the lower end lies. -/
theorem isMarked_of_cover (hc : t.cover region = .ok t') (hs : t.covered.start = region.start)
    (ha : addr ∈ t.covered) (ha' : addr ∈ region) :
    t'.isMarked addr = if t.EndsInCard region addr then .ok false else t.isMarked addr := by
  have hheap := h.mem_heap ha
  obtain ⟨hi, rfl⟩ := cover_eq_ok hc
  have hspan := BlockTable.span_recover (t := t.cards) t.covered region false
  have hblock : (t.cards.recover t.covered region false).blockAt addr = t.cards.blockAt addr := by
    simp only [BlockTable.blockAt, hspan]
  have hheap' : addr ∈ (t.cards.recover t.covered region false).span := hspan.symm ▸ hheap
  rw [isMarked_eq_ok hheap', isMarked_eq_ok hheap, hblock,
    BlockTable.get?_recover_blockAt h.span_includes hi hs ha ha' (h.complete.blockAt_lt hheap)]
  split
  · rename_i hend
    exact (if_pos hend).symm
  · rename_i hend
    exact (if_neg hend).symm

end Clean

/-- A change of the covered part that keeps its start leaves every address that stays covered with
the answer it had, if the lower one of the two ends is the start of a card. Otherwise the card in
which that end lies is clean after the change, and all others keep their marks. -/
theorem Run.keeps_marks (h : Run heap t) (hc : t.cover region = .ok t')
    (hs : t.covered.start = region.start) (ha : addr ∈ t.covered) (ha' : addr ∈ region) :
    (∃ dirty, t.isMarked addr = .ok dirty) ∧
    (isCardStart (min t.covered.stop region.stop) = true → t'.isMarked addr = t.isMarked addr) ∧
    t'.isMarked addr = if t.EndsInCard region addr then .ok false else t.isMarked addr := by
  have hclean := h.clean
  have hheap := hclean.mem_heap ha
  have hmarked := hclean.isMarked_of_cover hc hs ha ha'
  refine ⟨⟨_, isMarked_eq_ok hheap⟩, fun hend => ?_, hmarked⟩
  rw [hmarked, if_neg]
  exact not_endsInCard (hclean.heap_eq ▸ h.isCardStart_start) hend hheap ha ha'

/-- The covered part shrinks from four cards to two, and grows to three and a half again. The mark
of the second card stays. -/
theorem Run.keeps_marks_small : ∃ t₁ t₂ t₃ : CardMarks, Run ⟨4096, 6144, by decide⟩ t₁ ∧
    t₁.isMarked 4700 = .ok true ∧ t₁.cover ⟨4096, 5120, by decide⟩ = .ok t₂ ∧
    t₂.cover ⟨4096, 5888, by decide⟩ = .ok t₃ ∧ t₃.isMarked 4700 = .ok true := by
  have hrun : ∃ a b t₁ t₂ t₃ : CardMarks, ofHeap ⟨4096, 6144, by decide⟩ = .ok a ∧
      a.cover ⟨4096, 6144, by decide⟩ = .ok b ∧ b.mark 4700 = .ok t₁ ∧
      t₁.isMarked 4700 = .ok true ∧ t₁.cover ⟨4096, 5120, by decide⟩ = .ok t₂ ∧
      t₂.cover ⟨4096, 5888, by decide⟩ = .ok t₃ ∧ t₁.covered = ⟨4096, 6144, by decide⟩ ∧
      t₂.covered = ⟨4096, 5120, by decide⟩ :=
    ⟨_, _, _, _, _, rfl, rfl, rfl, rfl, rfl, rfl, rfl, rfl⟩
  obtain ⟨a, b, t₁, t₂, t₃, ha, hb, h₁, hmark, h₂, h₃, hcov₁, hcov₂⟩ := hrun
  have hr₁ : Run ⟨4096, 6144, by decide⟩ t₁ := .mark (.cover (.new ha) hb) h₁
  have hin₁ : 4700 ∈ t₁.covered := by rw [hcov₁]; decide
  have hin₂ : 4700 ∈ t₂.covered := by rw [hcov₂]; decide
  obtain ⟨-, hshrink, -⟩ := Run.keeps_marks hr₁ h₂ (by rw [hcov₁]) hin₁ (by decide)
  obtain ⟨-, hgrow, -⟩ := Run.keeps_marks (.cover hr₁ h₂) h₃ (by rw [hcov₂]) hin₂ (by decide)
  refine ⟨t₁, t₂, t₃, hr₁, hmark, h₂, h₃, ?_⟩
  rw [hgrow (by rw [hcov₂]; decide), hshrink (by rw [hcov₁]; decide), hmark]

/-- A dirty card that stays covered in part is clean after the covered part shrank to an end inside
the card, and so is one that the covered part ended in before it grew. -/
theorem Run.loses_marks : ∃ t₁ t₂ t₃ t₄ : CardMarks,
    Run ⟨4096, 6144, by decide⟩ t₁ ∧ t₁.covered = ⟨4096, 5632, by decide⟩ ∧
      t₁.isMarked 4608 = .ok true ∧ t₁.cover ⟨4096, 4616, by decide⟩ = .ok t₂ ∧
      t₂.isMarked 4608 = .ok false ∧
    Run ⟨4096, 6144, by decide⟩ t₃ ∧ t₃.covered = ⟨4096, 4616, by decide⟩ ∧
      t₃.isMarked 4608 = .ok true ∧ t₃.cover ⟨4096, 5632, by decide⟩ = .ok t₄ ∧
      t₄.isMarked 4608 = .ok false := by
  have hrun : ∃ a b t₁ t₂ t₃ t₄ : CardMarks, ofHeap ⟨4096, 6144, by decide⟩ = .ok a ∧
      a.cover ⟨4096, 5632, by decide⟩ = .ok b ∧ b.mark 4608 = .ok t₁ ∧
      t₁.cover ⟨4096, 4616, by decide⟩ = .ok t₂ ∧ t₂.mark 4608 = .ok t₃ ∧
      t₃.cover ⟨4096, 5632, by decide⟩ = .ok t₄ ∧ t₁.covered = ⟨4096, 5632, by decide⟩ ∧
      t₃.covered = ⟨4096, 4616, by decide⟩ ∧ t₁.isMarked 4608 = .ok true ∧
      t₂.isMarked 4608 = .ok false ∧ t₃.isMarked 4608 = .ok true ∧ t₄.isMarked 4608 = .ok false :=
    ⟨_, _, _, _, _, _, rfl, rfl, rfl, rfl, rfl, rfl, rfl, rfl, rfl, rfl, rfl, rfl⟩
  obtain ⟨a, b, t₁, t₂, t₃, t₄, ha, hb, h₁, h₂, h₃, h₄, hcov₁, hcov₃, m₁, m₂, m₃, m₄⟩ := hrun
  have hr₁ : Run ⟨4096, 6144, by decide⟩ t₁ := .mark (.cover (.new ha) hb) h₁
  exact ⟨t₁, t₂, t₃, t₄, hr₁, hcov₁, m₁, h₂, m₂, .mark (.cover hr₁ h₂) h₃, hcov₃, m₃, h₄, m₄⟩

end Tenured.CardMarks
