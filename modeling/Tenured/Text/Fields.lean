/-!
# Fields

`Text.fields` cuts a text at every occurrence of a separator, and `Text.cut?` at the first one.
-/

namespace Tenured.Text

/-- The parts of a text between separators. There is one more part than there are separators. -/
def fields (sep : Char) : List Char → List (List Char)
  | [] => [[]]
  | c :: cs =>
    if c = sep then [] :: fields sep cs
    else
      match fields sep cs with
      | [] => [[c]]
      | f :: fs => (c :: f) :: fs

/-- The text before and after the first separator. -/
def cut? (sep : Char) : List Char → Option (List Char × List Char)
  | [] => none
  | c :: cs => if c = sep then some ([], cs) else (cut? sep cs).map fun p => (c :: p.1, p.2)

theorem fields_ne_nil (sep : Char) (cs : List Char) : fields sep cs ≠ [] := by
  fun_cases fields sep cs <;> simp

/-- Joining the parts with the separator gives the text back. -/
theorem intercalate_fields (sep : Char) (cs : List Char) :
    [sep].intercalate (fields sep cs) = cs := by
  induction cs with
  | nil => rfl
  | cons c cs ih =>
    have hne := fields_ne_nil sep cs
    rw [fields]
    split
    · subst c
      cases h : fields sep cs with
      | nil => exact absurd h hne
      | cons f fs => rw [h] at ih; simpa [List.intercalate, List.intersperse] using ih
    · cases h : fields sep cs with
      | nil => exact absurd h hne
      | cons f fs => cases fs <;> simp_all [List.intercalate, List.intersperse]

theorem eq_append_of_cut? {sep : Char} {cs l r : List Char} (h : cut? sep cs = some (l, r)) :
    cs = l ++ sep :: r ∧ sep ∉ l := by
  induction cs generalizing l with
  | nil => simp [cut?] at h
  | cons c cs ih =>
    rw [cut?] at h
    split at h
    · grind
    · obtain ⟨p, hp, hl⟩ := Option.map_eq_some_iff.1 h
      have := ih (l := p.1) (by grind)
      grind

end Tenured.Text
