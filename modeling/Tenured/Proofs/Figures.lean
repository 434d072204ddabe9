import Tenured.Figures
import Tenured.Proofs.Json.Record
import Tenured.ResizeTotals

/-!
# Published figures are read back

The figures of a generation, those of a space and the totals of its resizes each have a written
form and a reader. `Json.Record.Reads` is what the three readers have in common: each gives the
value whose members are what the text holds.

* `Json.Record.Reads.ofJson?_print`: such a reader gives back what was written, whatever the texts
  and the words are;
* `Json.Record.Reads.ofJson?_print_of_eq_some`: what it read from any text, written and read again,
  is the same once more;
* `Json.figures_read_back`: both for the three readers.
-/

namespace Tenured

open Json

namespace Json.Record

/-- Whether a reader gives exactly the value whose members a text holds. -/
structure Reads {α : Type} (members : α → List (String × Scalar)) (schema : List Field)
    (ofJson? : String → Option α) : Prop where
  nodup : ∀ c, ((members c).map Prod.fst).Nodup
  schemaOf_members : ∀ c, schemaOf (members c) = schema
  ofJson?_eq_some_iff : ∀ {text c},
    ofJson? text = some c ↔ read? schema text = some ((members c).map Prod.snd)

variable {α : Type} {members : α → List (String × Scalar)} {schema : List Field}
  {ofJson? : String → Option α} {c : α}

/-- A value is read back from its written form. -/
theorem Reads.ofJson?_print (r : Reads members schema ofJson?) (h : Fits (members c)) :
    ofJson? (print (members c)) = some c := by
  rw [r.ofJson?_eq_some_iff, ← r.schemaOf_members c]
  exact read?_print (r.nodup c) h

/-- The numbers of a value that was read are words. -/
theorem Reads.fits (r : Reads members schema ofJson?) {text : String}
    (h : ofJson? text = some c) : Fits (members c) := by
  have hread := fits_of_read? (r.ofJson?_eq_some_iff.1 h)
  exact fun m hm => hread m.2 (List.mem_map_of_mem hm)

/-- A value that was read from any text is read back from its written form. -/
theorem Reads.ofJson?_print_of_eq_some (r : Reads members schema ofJson?) {text : String}
    (h : ofJson? text = some c) : ofJson? (print (members c)) = some c :=
  r.ofJson?_print (r.fits h)

end Json.Record

theorem GenerationFigures.reads : Record.Reads members schema ofJson? where
  nodup c := by simp [members]
  schemaOf_members _ := rfl
  ofJson?_eq_some_iff {text c} := by
    unfold ofJson?
    split
    · rename_i h; rw [h]; cases c; simp [members]
    · rename_i h; simpa [members] using h _ _ _ _ _ _

theorem SpaceFigures.reads : Record.Reads members schema ofJson? where
  nodup c := by simp [members]
  schemaOf_members _ := rfl
  ofJson?_eq_some_iff {text c} := by
    unfold ofJson?
    split
    · rename_i h; rw [h]; cases c; simp [members]
    · rename_i h; simpa [members] using h _ _ _ _

theorem ResizeTotals.reads : Record.Reads members schema ofJson? where
  nodup c := by simp [members]
  schemaOf_members _ := rfl
  ofJson?_eq_some_iff {text s} := by
    unfold ofJson?
    split
    · rename_i h; rw [h]; cases s; simp [members]
    · rename_i h; simpa [members] using h _ _ _ _ _ _

/-- Figures and totals are read back from their written form, for every name and all words. So
writing what was read from any text and reading it again gives the same once more. -/
theorem Json.figures_read_back :
    ((∀ c : GenerationFigures, Record.Fits c.members →
        GenerationFigures.ofJson? c.toJson = some c) ∧
      (∀ c : SpaceFigures, Record.Fits c.members → SpaceFigures.ofJson? c.toJson = some c) ∧
      ∀ s : ResizeTotals, Record.Fits s.members → ResizeTotals.ofJson? s.toJson = some s) ∧
    (∀ text c, GenerationFigures.ofJson? text = some c →
        GenerationFigures.ofJson? c.toJson = some c) ∧
      (∀ text c, SpaceFigures.ofJson? text = some c → SpaceFigures.ofJson? c.toJson = some c) ∧
      ∀ text s, ResizeTotals.ofJson? text = some s → ResizeTotals.ofJson? s.toJson = some s :=
  ⟨⟨fun _ h => GenerationFigures.reads.ofJson?_print h,
      fun _ h => SpaceFigures.reads.ofJson?_print h, fun _ h => ResizeTotals.reads.ofJson?_print h⟩,
    fun _ _ h => GenerationFigures.reads.ofJson?_print_of_eq_some h,
    fun _ _ h => SpaceFigures.reads.ofJson?_print_of_eq_some h,
    fun _ _ h => ResizeTotals.reads.ofJson?_print_of_eq_some h⟩

/-- A name that needs every way to write a character, and the largest word. -/
def GenerationFigures.escaped : GenerationFigures :=
  { name := "a\"\\/\x08\x0c\n\r\t\x01\x7f\u00e9\u2028", level := 1, spaces := 0,
    minCapacity := 10, maxCapacity := Word.max, currentCapacity := 100 }

theorem Json.figures_read_back_escaped : Record.Fits GenerationFigures.escaped.members ∧
    GenerationFigures.ofJson? GenerationFigures.escaped.toJson = some .escaped ∧
    SpaceFigures.ofJson? "\x7b\"used\":1, \"capacity\":2,\"name\":\"\",\"max_capacity\":3\x7d" =
      some ⟨"", 3, 2, 1⟩ ∧
    SpaceFigures.ofJson? (SpaceFigures.toJson ⟨"", 3, 2, 1⟩) = some ⟨"", 3, 2, 1⟩ := by
  have hread : SpaceFigures.ofJson?
      "\x7b\"used\":1, \"capacity\":2,\"name\":\"\",\"max_capacity\":3\x7d" =
        some ⟨"", 3, 2, 1⟩ := by
    decide
  exact ⟨by decide, Json.figures_read_back.1.1 _ (by decide), hread,
    Json.figures_read_back.2.2.1 _ _ hread⟩

end Tenured
