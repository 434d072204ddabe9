import Tenured.Region.Bounds

/-!
# Block tables

A block table has one entry for every 512 bytes of a region, its span. Both side tables of a
generation are block tables with a covered part: only entries of covered blocks carry information,
and the others are kept blank.

* `BlockTable.get?_fill`: filling changes the entries of the blocks that a range touches, and no
  other.
-/

namespace Tenured

/-- An entry for every block of a region. -/
structure BlockTable (α : Type) where
  span : Region
  entries : Array α

namespace BlockTable

variable {α : Type}

/-- The number of bytes that an entry stands for. -/
abbrev blockSize : Nat := 512

/-- The exponent of the block size. -/
def blockShift : Nat := 9

/-- The table of a region in which all entries are equal. -/
def ofSpan (span : Region) (blank : α) : BlockTable α :=
  ⟨span, Array.replicate (span.size / blockSize) blank⟩

/-- The entry with an index. -/
def get? (t : BlockTable α) (k : Nat) : Option α :=
  t.entries[k]?

/-- The index of the block at an address of the span. -/
def blockAt (t : BlockTable α) (addr : Nat) : Nat :=
  (addr - t.span.start) / blockSize

/-- The index of the block at an address, which must lie in the span. -/
def blockOf (t : BlockTable α) (addr : Nat) : Except Fault Nat := do
  check (addr ∈ t.span) (.addressOutside addr t.span)
  return t.blockAt addr

/-- The first address of the block with an index. -/
def blockStart (t : BlockTable α) (k : Nat) : Nat :=
  t.span.start + k * blockSize

/-- An array in which the `n` entries from index `i` on are `v`. -/
def setRange (a : Array α) (i : Nat) (v : α) : Nat → Array α
  | 0 => a
  | n + 1 => setRange (a.setIfInBounds i v) (i + 1) v n

/-- The number of blocks that the range from `start` to `stop` touches. -/
def blocksIn (t : BlockTable α) (start stop : Nat) : Nat :=
  if start < stop then t.blockAt (stop - 1) + 1 - t.blockAt start else 0

/-- A table in which the entries of all blocks that a range touches are `v`. -/
def fill (t : BlockTable α) (start stop : Nat) (v : α) : BlockTable α :=
  { t with entries := setRange t.entries (t.blockAt start) v (t.blocksIn start stop) }

/-- A table with a new entry at an index. -/
def set (t : BlockTable α) (k : Nat) (v : α) : BlockTable α :=
  { t with entries := t.entries.setIfInBounds k v }

/-- The entries of the blocks that a range touches. -/
def slice (t : BlockTable α) (start stop : Nat) : List α :=
  (List.range (t.blocksIn start stop)).filterMap fun i => t.entries[t.blockAt start + i]?

/-- A table whose covered part changes from one region to another. Blocks that enter or leave it
become blank; if the start stays, the blocks between the two ends are those. -/
def recover (t : BlockTable α) (old new : Region) (blank : α) : BlockTable α :=
  if old.start = new.start then
    t.fill (min old.stop new.stop) (max old.stop new.stop) blank
  else (t.fill old.start old.stop blank).fill new.start new.stop blank

theorem getElem?_setRange (a : Array α) (i : Nat) (v : α) (n k : Nat) :
    (setRange a i v n)[k]? = if i ≤ k ∧ k < i + n ∧ k < a.size then some v else a[k]? := by
  induction n generalizing a i with
  | zero => simp [setRange]; omega
  | succ n ih =>
    rw [setRange, ih, Array.getElem?_setIfInBounds, Array.size_setIfInBounds]
    grind

@[simp] theorem size_setRange (a : Array α) (i : Nat) (v : α) (n : Nat) :
    (setRange a i v n).size = a.size := by
  induction n generalizing a i with
  | zero => rfl
  | succ n ih => rw [setRange, ih, Array.size_setIfInBounds]

theorem get?_fill (t : BlockTable α) (start stop : Nat) (v : α) (k : Nat) :
    (t.fill start stop v).get? k =
      if t.blockAt start ≤ k ∧ k < t.blockAt start + t.blocksIn start stop ∧ k < t.entries.size then
        some v
      else t.get? k :=
  getElem?_setRange ..

theorem get?_set (t : BlockTable α) (i : Nat) (v : α) (k : Nat) :
    (t.set i v).get? k = if i = k ∧ k < t.entries.size then some v else t.get? k := by
  rw [get?, set, Array.getElem?_setIfInBounds, get?]
  grind

@[simp] theorem span_fill (t : BlockTable α) (start stop : Nat) (v : α) :
    (t.fill start stop v).span = t.span := rfl

@[simp] theorem size_fill (t : BlockTable α) (start stop : Nat) (v : α) :
    (t.fill start stop v).entries.size = t.entries.size :=
  size_setRange ..

end BlockTable

end Tenured
