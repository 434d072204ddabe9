import Tenured.Fault

/-!
# Regions from their bounds

`Region.ofBounds` and `Region.ofSize` build a region from addresses that need not fit together, and
fault if they do not.
-/

namespace Tenured.Region

/-- The region between two addresses, of which the first must not be above the second. -/
def ofBounds (start stop : Nat) : Except Fault Region :=
  if h : start ≤ stop then .ok ⟨start, stop, h⟩ else .error (.regionReversed start stop)

/-- The region of `size` bytes at `start`, which must end at a word. -/
def ofSize (start size : Nat) : Except Fault Region :=
  if start + size < Word.limit then .ok ⟨start, start + size, Nat.le_add_right ..⟩
  else .error (.regionTooLong start size)

theorem ofBounds_eq_ok_iff {start stop : Nat} {r : Region} :
    ofBounds start stop = .ok r ↔ r.start = start ∧ r.stop = stop := by
  have := r.start_le_stop
  unfold ofBounds
  split <;> cases r <;> grind

end Tenured.Region
