import Tenured.Proofs.Generation.Change

/-!
# What lies below the top

Four writers work on the memory of a generation: new memory is mangled, memory that is given back
reads as zero, memory is touched, and a header is written for every block. The first starts at the
end of the linear space, the second at a page that the end is about to become, the third writes
nothing, and the last writes at the top. So no change alters a word below the top
(`Changed.keeps`, `Changes.keeps`).
-/

namespace Tenured

namespace Memory

variable {m m' : Memory} {addr w i : Nat}

theorem load_of_dvd (h : 8 ∣ addr) : m.load addr = m.wordAt (addr / 8) := by
  have : addr % 8 * 8 = 0 := by omega
  simp only [load, this, if_true]

theorem store_of_dvd (h : 8 ∣ addr) : m.store addr w = m.setWord (addr / 8) w := by
  have : addr % 8 * 8 = 0 := by omega
  simp only [store, this, if_true]

/-- A store changes only the words that its bytes lie in. -/
theorem wordAt_store_of_ne (h : i ≠ addr / 8) (h' : 8 ∣ addr ∨ i ≠ addr / 8 + 1) :
    (m.store addr w).wordAt i = m.wordAt i := by
  rcases Decidable.em (8 ∣ addr) with hd | hd
  · rw [store_of_dvd hd, wordAt_setWord, if_neg (Ne.symm h)]
  · have hs : addr % 8 * 8 ≠ 0 := by omega
    simp only [store, hs, if_false, wordAt_setWord]
    rw [if_neg (Ne.symm (h'.resolve_left hd)), if_neg (Ne.symm h)]

/-- A store below an address that is a multiple of the word size changes no word from there on. -/
theorem wordAt_store_of_le {top : Nat} (hd : 8 ∣ top) (ha : addr + 8 ≤ top) (hi : top / 8 ≤ i) :
    (m.store addr w).wordAt i = m.wordAt i := by
  refine wordAt_store_of_ne (by omega) ?_
  -- an address inside a word is stored to that word and the next one
  by_cases hda : 8 ∣ addr
  · exact .inl hda
  · exact .inr (by omega)

/-- What is loaded depends only on the words that its bytes lie in. -/
theorem load_congr (h : m'.wordAt (addr / 8) = m.wordAt (addr / 8))
    (h' : 8 ∣ addr ∨ m'.wordAt (addr / 8 + 1) = m.wordAt (addr / 8 + 1)) :
    m'.load addr = m.load addr := by
  rcases h' with hd | h'
  · rw [load_of_dvd hd, load_of_dvd hd, h]
  · simp only [load, h, h']

end Memory

namespace Generation

open Object (wordSize)

variable {g g' g'' : Generation} {old region : Region} {words : Nat} {out : List Object}

/-- The words below the top stay as they are, and stay below the top. -/
structure Keeps (g g' : Generation) : Prop where
  top_le : g.objects.top ≤ g'.objects.top
  wordAt_eq : ∀ i, i < g.objects.top / 8 → g'.memory.wordAt i = g.memory.wordAt i

namespace Keeps

theorem refl (g : Generation) : Keeps g g :=
  ⟨Nat.le_refl _, fun _ _ => rfl⟩

theorem trans (h : Keeps g g') (h' : Keeps g' g'') : Keeps g g'' where
  top_le := Nat.le_trans h.top_le h'.top_le
  wordAt_eq i hi :=
    (h'.wordAt_eq i (Nat.lt_of_lt_of_le hi (Nat.div_le_div_right h.top_le))).trans
      (h.wordAt_eq i hi)

/-- Whatever is loaded from below the top stays. -/
theorem load_eq (h : Keeps g g') (hd : 8 ∣ g.objects.top) {addr : Nat}
    (ha : addr + wordSize ≤ g.objects.top) : g'.memory.load addr = g.memory.load addr := by
  simp only [wordSize] at ha
  refine Memory.load_congr (h.wordAt_eq _ (by omega)) ?_
  -- an address inside a word is loaded from that word and the next one
  rcases Decidable.em (8 ∣ addr) with hda | hda
  · exact .inl hda
  · exact .inr (h.wordAt_eq _ (by omega))

end Keeps

/-! ## One change -/

theorem Alike.keeps (ha : Alike g g') : Keeps g g' :=
  ⟨Nat.le_of_eq (by rw [ha.objects_eq]), fun _ _ => by rw [ha.memory_eq]⟩

/-- Mangling starts at the end of the linear space. -/
theorem wordAt_mangledUpTo (h : g.objects.top ≤ g.objects.stop) (stop : Nat) {i : Nat}
    (hi : i < g.objects.top / 8) : (g.mangledUpTo stop).wordAt i = g.memory.wordAt i := by
  rw [mangledUpTo]
  split
  · rw [Memory.wordAt_fill, if_neg]
    simp only [wordSize]
    omega
  · rfl

theorem Grown.keeps (hg : Grown g region g') (h : g.objects.top ≤ g.objects.stop) :
    Keeps g g' := by
  obtain ⟨addrs, -, hm⟩ := hg.memory_eq
  refine ⟨Nat.le_of_eq (by rw [hg.objects_eq]), fun i hi => ?_⟩
  rw [hm, Memory.wordAt_touchAll, wordAt_mangledUpTo h _ hi]

/-- What is given back starts at a page, so no word below it is in that page. -/
theorem Shrunk.wordAt_eq (hs : Shrunk g region g') (h : InLine g old) {i : Nat}
    (hi : i < region.stop / 8) : g'.memory.wordAt i = g.memory.wordAt i := by
  have hlt := hs.lt_stop
  have hend := h.end_eq
  have hd := (hs.inLine h).page_dvd_stop
  have hstop : old.stop - (g.objects.stop - region.stop) = region.stop := by omega
  rw [hs.memory_eq, Reservation.giveBack, h.high_eq, hstop]
  split
  · rename_i m hm
    refine Mapping.wordAt_giveBack hm (.inl ?_)
    simp only [Memory.pageWords, Page.size]
    omega
  · rfl

theorem Shrunk.keeps (hs : Shrunk g region g') (h : InLine g old) : Keeps g g' := by
  have htop := hs.top_le
  exact ⟨Nat.le_of_eq (by rw [hs.objects_eq]), fun i hi => hs.wordAt_eq h (by omega)⟩

theorem TouchedAhead.keeps {addr size : Nat} (ht : TouchedAhead g addr size g') : Keeps g g' := by
  obtain ⟨touched, -, hm⟩ := ht.follow_eq
  exact ⟨Nat.le_of_eq (by rw [ht.objects_eq]), fun i _ => by rw [hm, Memory.wordAt_touchAll]⟩

theorem Carved.keeps (hc : Carved g words g') (h : 8 ∣ g.objects.top) : Keeps g g' := by
  refine ⟨?_, fun i hi => ?_⟩
  · rw [hc.objects_eq]
    exact Nat.le_add_right ..
  · rw [hc.memory_eq, Memory.store_of_dvd h, Memory.wordAt_setWord, if_neg (by omega)]

theorem Changed.keeps (hc : Changed g out g') (h : InLine g old) : Keeps g g' := by
  cases hc with
  | alike ha => exact ha.keeps
  | grown hg => exact hg.keeps (h.end_eq ▸ h.top_le)
  | shrunk hs => exact hs.keeps h
  | touchedAhead ht => exact ht.keeps
  | carved hc => exact hc.keeps h.dvd_top

/-- The header of a block lies below the top after it. -/
theorem Carved.wordAt_eq (hc : Carved g words g') (h : InLine g old) {i : Nat}
    (hi : g'.objects.top / 8 ≤ i) : g'.memory.wordAt i = g.memory.wordAt i := by
  have hd : 8 ∣ g'.objects.top := (hc.inLine h).dvd_top
  have hw : 2 ≤ words := hc.minWords_le
  have htop : g'.objects.top = g.objects.top + words * 8 := congrArg LinearSpace.top hc.objects_eq
  rw [hc.memory_eq]
  exact Memory.wordAt_store_of_le hd (by omega) hi

/-! ## One change after another -/

theorem Changes.keeps (hc : Changes g out g') (h : InLine g old) : Keeps g g' := by
  induction hc with
  | refl => exact .refl g
  | tail hc hlast ih =>
    obtain ⟨region, hin⟩ := hc.inLine h
    exact ih.trans (hlast.keeps hin)

end Generation

end Tenured
