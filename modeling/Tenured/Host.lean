import Tenured.Event.Journal
import Tenured.Memory.Basic

/-!
# The host

What an operation of a generation acts on beside the generation itself: the memory, the journal to
which lines are written, and the time at which events happen.
-/

namespace Tenured

/-- The memory, the journal and the time. -/
structure Host where
  memory : Memory := {}
  journal : Journal := {}
  /-- The milliseconds since the start of 1970. -/
  clock : Int := 0
deriving Inhabited

namespace Host

/-- A host after a line was written to its journal. -/
def write (h : Host) (level : Level) (text : String) : Host :=
  { h with journal := h.journal.write level text }

/-- A host with other memory. -/
def withMemory (h : Host) (m : Memory) : Host :=
  { h with memory := m }

@[simp] theorem memory_write (h : Host) (level : Level) (text : String) :
    (h.write level text).memory = h.memory := rfl

end Host

end Tenured
