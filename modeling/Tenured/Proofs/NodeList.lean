import Mathlib.Algebra.GroupWithZero.Nat
import Mathlib.Data.Finset.Union
import Mathlib.Data.List.Forall2
import Mathlib.Order.Interval.Finset.Nat
import Tenured.NodeList
import Tenured.Proofs.Attempt
import Tenured.Proofs.Text.Reading

/-!
# The nodes of a list

A node list is one or more parts with commas between them, and a part is a number or two numbers in
order with a dash between them, where each number may have blanks around it (`NodeList.Lists`). As
no number has a comma or a dash in it, a text can be read in no other way
(`NodeList.readPart?_eq_some_iff`). So the nodes of a list are counted part by part
(`NodeList.count_of_lists`), and a text that is not a list is found malformed
(`NodeList.count_of_not_lists`), as long as the nodes counted until then are few enough for a word.

`NodeList.write` is how the system writes disjoint ranges of nodes. What it writes has as many nodes
as the union of the ranges.
-/

namespace Tenured.NodeList

open Text (Denotes isBlank)

/-! ## What a node list is -/

/-- A text is a number with blanks around it. -/
inductive Names : List Char → Nat → Prop
  | intro {l cs r : List Char} {n : Nat} (hl : ∀ c ∈ l, isBlank c) (hr : ∀ c ∈ r, isBlank c)
    (h : Denotes cs n) : Names (l ++ cs ++ r) n

/-- A text is a part of a node list. -/
inductive Spells : List Char → Part → Prop
  | single {cs : List Char} {n : Nat} (h : Names cs n) : Spells cs (.single n)
  | range {l r : List Char} {lo hi : Nat} (hl : Names l lo) (hr : Names r hi) (hle : lo ≤ hi) :
    Spells (l ++ '-' :: r) (.range lo hi)

/-- A text is one or more parts with commas between them. -/
def Lists (text : List Char) (parts : List Part) : Prop :=
  ∃ fields, fields ≠ [] ∧ text = [','].intercalate fields ∧ List.Forall₂ Spells fields parts

/-- A text begins with parts, whatever stands behind the comma after them. -/
def Begins (text : List Char) (parts : List Part) : Prop :=
  ∃ fields rest, text = [','].intercalate (fields ++ rest) ∧ List.Forall₂ Spells fields parts

/-- The number of nodes in a part. -/
def Part.size : Part → Nat
  | single _ => 1
  | range lo hi => hi - lo + 1

/-- The number of nodes in parts, without regard to repetitions. -/
def size (parts : List Part) : Nat :=
  (parts.map Part.size).sum

/-! ## Reading a part -/

variable {cs text : List Char} {n total : Nat} {p : Part} {parts : List Part}
  {fields : List (List Char)}

theorem readNode?_eq_some_iff : readNode? cs = some n ↔ Names cs n := by
  constructor
  · intro h
    obtain ⟨l, r, hcs, hl, hr⟩ := Text.exists_eq_append_trim cs
    rw [hcs]
    exact .intro hl hr (Text.readWord?_eq_some_iff.1 h)
  · intro h
    obtain ⟨hl, hr, h⟩ := h
    rw [readNode?, Text.trim_eq_of_blank hl hr h.ne_nil fun _ => h.isBlank_eq_false]
    exact Text.readWord?_eq_some_iff.2 h

theorem Names.notMem (h : Names cs n) {sep : Char} (hb : isBlank sep = false)
    (hd : sep.isDigit = false) (hp : sep ≠ '+') : sep ∉ cs := by
  obtain ⟨hl, hr, h⟩ := h
  intro hmem
  rcases List.mem_append.1 hmem with hmem | hmem
  · rcases List.mem_append.1 hmem with hmem | hmem
    · exact absurd (hl sep hmem) (by simp [hb])
    · rcases h.isDigit_or_eq hmem with hd' | hp'
      · exact absurd hd' (by simp [hd])
      · exact hp hp'
  · exact absurd (hr sep hmem) (by simp [hb])

theorem Names.dash_notMem (h : Names cs n) : '-' ∉ cs :=
  h.notMem (by decide) (by decide) (by decide)

theorem Names.comma_notMem (h : Names cs n) : ',' ∉ cs :=
  h.notMem (by decide) (by decide) (by decide)

theorem Spells.comma_notMem (h : Spells cs p) : ',' ∉ cs := by
  cases h with
  | single h => exact h.comma_notMem
  | range hl hr _ => simp [hl.comma_notMem, hr.comma_notMem]

/-- A part is read as what it is. -/
theorem readPart?_eq_some_iff : readPart? cs = some p ↔ Spells cs p := by
  constructor
  · intro h
    unfold readPart? at h
    split at h
    · obtain ⟨n, hn, rfl⟩ := Option.map_eq_some_iff.1 h
      exact .single (readNode?_eq_some_iff.1 hn)
    · rename_i l r hcut
      obtain ⟨rfl, -⟩ := Text.eq_append_of_cut? hcut
      obtain ⟨lo, hlo, h⟩ := Option.bind_eq_some_iff.1 h
      obtain ⟨hi, hhi, h⟩ := Option.bind_eq_some_iff.1 h
      split at h
      · cases h
      · rename_i hle
        cases h
        exact .range (readNode?_eq_some_iff.1 hlo) (readNode?_eq_some_iff.1 hhi)
          (Nat.le_of_not_lt hle)
  · intro h
    cases h with
    | single h =>
      have hcut : Text.cut? '-' cs = none := Text.cut?_eq_none_iff.2 h.dash_notMem
      simp only [readPart?, hcut, readNode?_eq_some_iff.2 h, Option.map_some]
    | @range l r lo hi hl hr hle =>
      -- the dash between the numbers is the first one
      have hcut : Text.cut? '-' (l ++ '-' :: r) = some (l, r) := Text.cut?_append hl.dash_notMem
      simp only [readPart?, hcut, readNode?_eq_some_iff.2 hl, readNode?_eq_some_iff.2 hr]
      exact if_neg (Nat.not_lt.2 hle)

theorem Spells.count_eq (h : Spells cs p) (hlt : p.size < Word.limit) : p.count = .ok p.size := by
  cases h with
  | single _ => rfl
  | @range l r lo hi _ _ hle =>
    have hsub : Word.sub hi lo = .ok (hi - lo) := Word.sub_eq_ok_iff.2 ⟨hle, rfl⟩
    simp only [Part.count, hsub]
    exact Word.add_eq_ok_iff.2 ⟨hlt, rfl⟩

/-! ## Counting -/

@[simp] theorem size_cons (p : Part) (parts : List Part) :
    size (p :: parts) = p.size + size parts :=
  List.sum_cons

/-- One step of the count. -/
theorem countFrom_cons (hp : Spells cs p) (hlt : total + p.size < Word.limit) :
    countFrom total (cs :: fields) = countFrom (total + p.size) fields := by
  have hcount : p.count = .ok p.size := hp.count_eq (by omega)
  have hadd : Word.add total p.size = .ok (total + p.size) := Word.add_eq_ok_iff.2 ⟨hlt, rfl⟩
  simp only [countFrom, readPart?_eq_some_iff.2 hp, hcount, hadd, bind, Except.bind]

/-- The nodes of well-formed parts are counted part by part. -/
theorem countFrom_of_spells (h : List.Forall₂ Spells fields parts)
    (hlt : total + size parts < Word.limit) :
    countFrom total fields = .ok (some (total + size parts)) := by
  induction h generalizing total with
  | nil => rfl
  | cons hp _ ih =>
    rw [size_cons, ← Nat.add_assoc] at hlt ⊢
    rw [countFrom_cons hp (by omega), ih hlt]

/-- The first malformed part ends the count, provided that it is reached. -/
theorem countFrom_of_not_spells
    (hlt : ∀ heads parts, heads <+: fields → List.Forall₂ Spells heads parts →
      total + size parts < Word.limit)
    (hn : ¬ ∃ parts, List.Forall₂ Spells fields parts) : countFrom total fields = .ok none := by
  induction fields generalizing total with
  | nil => exact absurd ⟨[], .nil⟩ hn
  | cons cs fields ih =>
    cases hread : readPart? cs with
    | none =>
      simp only [countFrom, hread]
      rfl
    | some p =>
      have hp : Spells cs p := readPart?_eq_some_iff.1 hread
      have hone : total + size [p] < Word.limit := hlt [cs] [p] (by simp) (.cons hp .nil)
      rw [countFrom_cons hp (by simpa [size] using hone)]
      apply ih
      · intro heads parts hheads hparts
        have hall := hlt (cs :: heads) (p :: parts) (List.cons_prefix_cons.2 ⟨rfl, hheads⟩)
          (.cons hp hparts)
        rwa [size_cons, ← Nat.add_assoc] at hall
      · intro ⟨parts, hparts⟩
        exact hn ⟨p :: parts, .cons hp hparts⟩

theorem comma_notMem_of_spells (h : List.Forall₂ Spells fields parts) :
    ∀ cs ∈ fields, ',' ∉ cs := by
  induction h with
  | nil => nofun
  | cons hp _ ih => exact List.forall_mem_cons.2 ⟨hp.comma_notMem, ih⟩

theorem fields_of_spells (h : List.Forall₂ Spells fields parts) (hne : fields ≠ []) :
    Text.fields ',' ([','].intercalate fields) = fields :=
  Text.fields_intercalate (comma_notMem_of_spells h) hne

/-- An empty text has one part, which is empty, too. -/
theorem Lists.ne_nil (h : Lists text parts) : text ≠ [] := by
  intro hnil
  subst hnil
  obtain ⟨fields, hne, htext, h⟩ := h
  have hfields : [[]] = fields := by
    rw [← fields_of_spells h hne, ← htext]
    rfl
  subst hfields
  obtain ⟨_, _, hp, -⟩ := List.forall₂_cons_left_iff.1 h
  exact absurd (readPart?_eq_some_iff.2 hp) nofun

theorem Lists.begins (h : Lists text parts) : Begins text parts := by
  obtain ⟨fields, -, rfl, h⟩ := h
  exact ⟨fields, [], by rw [List.append_nil], h⟩

theorem map_readPart?_of_spells (h : List.Forall₂ Spells fields parts) :
    fields.map readPart? = parts.map some := by
  induction h with
  | nil => rfl
  | cons hp _ ih => rw [List.map_cons, readPart?_eq_some_iff.2 hp, ih, List.map_cons]

/-- What a list begins with are its first parts. -/
theorem Begins.size_le {parts' : List Part} (hb : Begins text parts') (h : Lists text parts) :
    size parts' ≤ size parts := by
  have hne := h.ne_nil
  obtain ⟨fields, hfields, htext, h⟩ := h
  obtain ⟨heads, rest, hbegin, hheads⟩ := hb
  obtain ⟨tail, htail⟩ : ∃ tail, fields = heads ++ tail := by
    have happend : heads ++ rest ≠ [] := by
      intro hnil
      rw [hnil] at hbegin
      exact hne hbegin
    rw [← fields_of_spells h hfields, ← htext, hbegin]
    exact Text.exists_fields_eq_append (comma_notMem_of_spells hheads) happend
  have hmap : parts.map some = parts'.map some ++ tail.map readPart? := by
    rw [← map_readPart?_of_spells h, ← map_readPart?_of_spells hheads, htail, List.map_append]
  obtain ⟨first, last, rfl, hfirst, -⟩ := List.map_eq_append_iff.1 hmap
  rw [← List.map_inj_right (fun _ _ => Option.some.inj) |>.1 hfirst]
  simp [size]

theorem count_of_lists (h : Lists text parts) (hlt : size parts < Word.limit) :
    count text = .ok (some (size parts)) := by
  have hne := h.ne_nil
  obtain ⟨fields, hfields, rfl, h⟩ := h
  rw [count, if_neg hne, fields_of_spells h hfields, countFrom_of_spells h (by omega), Nat.zero_add]

theorem count_of_not_lists (hlt : ∀ parts, Begins text parts → size parts < Word.limit)
    (hn : ¬ ∃ parts, Lists text parts) : count text = .ok none := by
  by_cases hempty : text = []
  · rw [count, if_pos hempty]
    rfl
  rw [count, if_neg hempty]
  have htext := Text.intercalate_fields ',' text
  refine countFrom_of_not_spells (fun heads parts hpre h => ?_) fun h => ?_
  · obtain ⟨rest, hrest⟩ := hpre
    rw [Nat.zero_add]
    exact hlt parts ⟨heads, rest, by rw [hrest, htext], h⟩
  · obtain ⟨parts, h⟩ := h
    exact hn ⟨parts, _, Text.fields_ne_nil ',' text, htext.symm, h⟩

/-! ## Lists that the system writes -/

/-- A range of nodes as the system writes it. -/
def writeRange (r : Nat × Nat) : List Char :=
  if r.1 = r.2 then Nat.toDigits 10 r.1 else Nat.toDigits 10 r.1 ++ '-' :: Nat.toDigits 10 r.2

/-- A list of ranges as the system writes it. -/
def write (ranges : List (Nat × Nat)) : List Char :=
  [','].intercalate (ranges.map writeRange)

theorem names_toDigits (h : n < Word.limit) : Names (Nat.toDigits 10 n) n := by
  simpa using Names.intro (l := []) (r := []) nofun nofun (Text.denotes_toDigits h)

theorem exists_spells_writeRange {r : Nat × Nat} (hle : r.1 ≤ r.2) (hlt : r.2 < Word.limit) :
    ∃ p, Spells (writeRange r) p ∧ p.size = r.2 - r.1 + 1 := by
  have hlo : Names (Nat.toDigits 10 r.1) r.1 := names_toDigits (by omega)
  unfold writeRange
  split
  · rename_i heq
    exact ⟨.single r.1, .single hlo, by rw [heq, Nat.sub_self]; rfl⟩
  · exact ⟨.range r.1 r.2, .range hlo (names_toDigits hlt) hle, rfl⟩

/-- The nodes in any of the ranges. -/
def nodes (ranges : List (Nat × Nat)) : Finset Nat :=
  ranges.toFinset.biUnion fun r => Finset.Icc r.1 r.2

variable {ranges : List (Nat × Nat)}

/-- No node is in two ranges, so that none is counted twice. -/
theorem card_nodes_cons {r : Nat × Nat} (hle : r.1 ≤ r.2)
    (hd : ∀ r' ∈ ranges, Disjoint (Finset.Icc r.1 r.2) (Finset.Icc r'.1 r'.2)) :
    (nodes (r :: ranges)).card = r.2 - r.1 + 1 + (nodes ranges).card := by
  have hdisjoint : Disjoint (Finset.Icc r.1 r.2) (nodes ranges) :=
    (Finset.disjoint_biUnion_right ..).2 fun r' hr' => hd r' (List.mem_toFinset.1 hr')
  calc (nodes (r :: ranges)).card = (Finset.Icc r.1 r.2 ∪ nodes ranges).card := by
        rw [nodes, nodes, List.toFinset_cons, Finset.biUnion_insert]
    _ = (Finset.Icc r.1 r.2).card + (nodes ranges).card := Finset.card_union_of_disjoint hdisjoint
    _ = r.2 - r.1 + 1 + (nodes ranges).card := by
        rw [Nat.card_Icc]
        omega

theorem exists_spells_ranges (h : ∀ r ∈ ranges, r.1 ≤ r.2 ∧ r.2 < Word.limit)
    (hd : ranges.Pairwise fun r r' => Disjoint (Finset.Icc r.1 r.2) (Finset.Icc r'.1 r'.2)) :
    ∃ parts, List.Forall₂ Spells (ranges.map writeRange) parts ∧
      size parts = (nodes ranges).card := by
  induction ranges with
  | nil => exact ⟨[], .nil, rfl⟩
  | cons r ranges ih =>
    obtain ⟨⟨hle, hlt⟩, h⟩ := List.forall_mem_cons.1 h
    obtain ⟨hr, hd⟩ := List.pairwise_cons.1 hd
    obtain ⟨p, hp, hpsize⟩ := exists_spells_writeRange hle hlt
    obtain ⟨parts, hparts, hsize⟩ := ih h hd
    exact ⟨p :: parts, .cons hp hparts, by rw [size_cons, card_nodes_cons hle hr, hpsize, hsize]⟩

/-! ## All texts -/

/-- A text of whose parts not too many nodes are counted has a number of nodes exactly if it is a
list, and then it is the number of nodes in its parts. Any other is found malformed. Disjoint ranges
that were written are read as so many nodes as there are in any of them. -/
theorem count_eq_some_iff_lists :
    (∀ text, (∀ parts, Begins text parts → size parts < Word.limit) →
      (∀ n, count text = .ok (some n) ↔ ∃ parts, Lists text parts ∧ n = size parts) ∧
      ((¬ ∃ parts, Lists text parts) → count text = .ok none)) ∧
    ∀ ranges : List (Nat × Nat), ranges ≠ [] → (∀ r ∈ ranges, r.1 ≤ r.2 ∧ r.2 < Word.limit) →
      (ranges.Pairwise fun r r' => Disjoint (Finset.Icc r.1 r.2) (Finset.Icc r'.1 r'.2)) →
      (nodes ranges).card < Word.limit →
      count (write ranges) = .ok (some (nodes ranges).card) := by
  refine ⟨fun text hlt => ⟨fun n => ⟨fun hcount => ?_, ?_⟩, count_of_not_lists hlt⟩, ?_⟩
  · by_cases h : ∃ parts, Lists text parts
    · obtain ⟨parts, h⟩ := h
      rw [count_of_lists h (hlt parts h.begins)] at hcount
      cases hcount
      exact ⟨parts, h, rfl⟩
    · rw [count_of_not_lists hlt h] at hcount
      cases hcount
  · rintro ⟨parts, h, rfl⟩
    exact count_of_lists h (hlt parts h.begins)
  · intro ranges hne h hd hlt
    obtain ⟨parts, hparts, hsize⟩ := exists_spells_ranges h hd
    have hlists : Lists (write ranges) parts := ⟨_, by simpa using hne, rfl, hparts⟩
    rw [← hsize] at hlt ⊢
    exact count_of_lists hlists hlt

/-- A list with blanks, a sign and a leading zero, and one that was written. -/
theorem count_eq_some_iff_lists_five :
    count " 0-3 ,+05".toList = .ok (some 5) ∧ count (write [(0, 3), (5, 5)]) = .ok (some 5) := by
  have hlists : Lists " 0-3 ,+05".toList [.range 0 3, .single 5] := by
    refine ⟨[" 0-3 ".toList, "+05".toList], by decide, by decide, ?_⟩
    exact .cons (readPart?_eq_some_iff.1 (by decide))
      (.cons (readPart?_eq_some_iff.1 (by decide)) .nil)
  have hcard : (nodes [(0, 3), (5, 5)]).card = 5 := by decide
  constructor
  · have hlt : ∀ parts, Begins " 0-3 ,+05".toList parts → size parts < Word.limit :=
      fun _ hb => Nat.lt_of_le_of_lt (hb.size_le hlists) (by decide)
    exact ((count_eq_some_iff_lists.1 _ hlt).1 5).2 ⟨_, hlists, rfl⟩
  · have hcount := count_eq_some_iff_lists.2 [(0, 3), (5, 5)] (by decide) (by decide) (by decide)
      (by decide)
    rwa [hcard] at hcount

end Tenured.NodeList
