import Tenured.Event.Basic

/-!
# The journal

The lines that the library writes for whoever runs it. A journal keeps the lines up to its most
verbose level, oldest first; without such a level it keeps none.
-/

namespace Tenured

/-- The lines written so far. -/
structure Journal where
  limit : Option Level := none
  lines : Array (Level × String) := #[]
deriving Inhabited

namespace Journal

/-- Whether lines of a level are kept. -/
def admits (j : Journal) (level : Level) : Bool :=
  j.limit.any (·.admits level)

/-- A journal after a line was written to it. -/
def write (j : Journal) (level : Level) (text : String) : Journal :=
  if j.admits level then { j with lines := j.lines.push (level, text) } else j

/-- A journal from which the lines were taken. -/
def clear (j : Journal) : Journal :=
  { j with lines := #[] }

@[simp] theorem limit_write (j : Journal) (level : Level) (text : String) :
    (j.write level text).limit = j.limit := by
  unfold write; split <;> rfl

theorem lines_write (j : Journal) (level : Level) (text : String) :
    (j.write level text).lines =
      if j.admits level then j.lines.push (level, text) else j.lines := by
  unfold write; split <;> simp_all

end Journal

end Tenured
