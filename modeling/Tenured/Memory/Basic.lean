import Std.Data.HashMap
import Tenured.Page

/-!
# Memory

Memory is a word of 64 bits for every multiple of eight; the word with index `i` lies at the
addresses from `8 * i` on, its lowest byte first. A memory is kept as the pages that differ from
zero, and a page in which all words are equal is kept as that word alone.

`Memory.wordAt` is the view through which every operation is described:

* `Memory.wordAt_setWord`, `Memory.wordAt_fill`: writing changes the words written, and no other.
* `Memory.wordAt_release`: released pages read as zero.
* `Memory.wordAt_touch`: touching changes no word.

A word is read as a part of a program's data only at a multiple of eight (`Memory.readWord`).

A memory also remembers which addresses were touched, in order.
-/

namespace Tenured

/-- The number of words in a page. -/
abbrev Memory.pageWords : Nat := 512

/-- The words of a page. -/
inductive Memory.Words
  /-- All words are equal. -/
  | uniform (w : Nat)
  /-- The words one by one. -/
  | each (ws : Vector Nat Memory.pageWords)

/-- The words in memory, and the addresses touched. -/
structure Memory where
  pages : Std.HashMap Nat Memory.Words := {}
  touched : Array Nat := #[]

instance : Inhabited Memory := ⟨{}⟩

namespace Memory

/-- The word at a place in a page. -/
def Words.get : Words → Nat → Nat
  | uniform w, _ => w
  | each ws, k => ws[k]?.getD 0

/-- The words of a page one by one. -/
def Words.toVector : Words → Vector Nat pageWords
  | uniform w => Vector.replicate pageWords w
  | each ws => ws

/-- A page with a new word at a place. -/
def Words.set (p : Words) (k w : Nat) : Words :=
  .each (p.toVector.setIfInBounds k w)

/-- The memory in which every word is zero. -/
def zero : Memory := {}

/-- The page with an index. -/
def page (m : Memory) (p : Nat) : Words :=
  m.pages[p]?.getD (.uniform 0)

/-- The word with an index. -/
def wordAt (m : Memory) (i : Nat) : Nat :=
  (m.page (i / pageWords)).get (i % pageWords)

/-- A memory with a new page at an index. -/
def setPage (m : Memory) (p : Nat) (ws : Words) : Memory :=
  { m with pages := m.pages.insert p ws }

/-- A memory with a new word at an index. -/
def setWord (m : Memory) (i w : Nat) : Memory :=
  m.setPage (i / pageWords) ((m.page (i / pageWords)).set (i % pageWords) w)

/-- A memory in which the `n` words from index `i` on are `w`. -/
def fill (m : Memory) (i n w : Nat) : Memory :=
  if n = 0 then m
  else if i % pageWords = 0 ∧ pageWords ≤ n then
    fill (m.setPage (i / pageWords) (.uniform w)) (i + pageWords) (n - pageWords) w
  else fill (m.setWord i w) (i + 1) (n - 1) w
termination_by n
decreasing_by all_goals simp only [pageWords] at *; omega

/-- A memory in which `n` pages from page `p` on were given back and read as zero again. -/
def release (m : Memory) (p : Nat) : Nat → Memory
  | 0 => m
  | n + 1 => release { m with pages := m.pages.erase p } (p + 1) n

/-- The word at an address, which need not be a multiple of eight. -/
def load (m : Memory) (addr : Nat) : Nat :=
  let i := addr / 8
  let shift := addr % 8 * 8
  if shift = 0 then m.wordAt i
  else (m.wordAt i >>> shift ||| m.wordAt (i + 1) <<< (64 - shift)) % Word.limit

/-- A memory with a new word at an address, which need not be a multiple of eight. -/
def store (m : Memory) (addr w : Nat) : Memory :=
  let i := addr / 8
  let shift := addr % 8 * 8
  if shift = 0 then m.setWord i w
  else
    let low := m.wordAt i % (1 <<< shift) + w <<< shift % Word.limit
    let high := w >>> (64 - shift) + m.wordAt (i + 1) >>> shift <<< shift
    (m.setWord i low).setWord (i + 1) high

/-- Checks that a word can be accessed at an address. -/
def checkAligned (addr : Nat) : Except Fault Unit :=
  check (addr % 8 = 0) (.misaligned addr)

/-- The word at an address, which must be a multiple of eight. -/
def readWord (m : Memory) (addr : Nat) : Except Fault Nat := do
  checkAligned addr
  return m.load addr

/-- A memory after an address was touched. -/
def touch (m : Memory) (addr : Nat) : Memory :=
  { m with touched := m.touched.push addr }

/-- A memory after addresses were touched, in order. -/
def touchAll (m : Memory) (addrs : List Nat) : Memory :=
  { m with touched := m.touched ++ addrs }

theorem checkAligned_eq_ok {addr : Nat} (h : 8 ∣ addr) : checkAligned addr = .ok () :=
  check_eq_ok_iff.2 (Nat.mod_eq_zero_of_dvd h)

theorem readWord_of_dvd {addr : Nat} (h : 8 ∣ addr) (m : Memory) :
    m.readWord addr = .ok (m.load addr) := by
  rw [readWord, checkAligned_eq_ok h]
  rfl

theorem readWord_of_not_dvd {addr : Nat} (h : ¬ 8 ∣ addr) (m : Memory) :
    m.readWord addr = .error (.misaligned addr) := by
  have : ¬ addr % 8 = 0 := fun h' => h (Nat.dvd_of_mod_eq_zero h')
  simp only [readWord, checkAligned, check, this, if_false]
  rfl

theorem readWord_eq_ok_iff {addr w : Nat} {m : Memory} :
    m.readWord addr = .ok w ↔ 8 ∣ addr ∧ m.load addr = w := by
  by_cases h : 8 ∣ addr
  · simp [readWord_of_dvd h, h]
  · simp [readWord_of_not_dvd h, h]

theorem readWord_eq_error_iff {addr : Nat} {e : Fault} {m : Memory} :
    m.readWord addr = .error e ↔ ¬ 8 ∣ addr ∧ e = .misaligned addr := by
  by_cases h : 8 ∣ addr
  · simp [readWord_of_dvd h, h]
  · simp [readWord_of_not_dvd h, h, eq_comm]

theorem readWord_congr {addr : Nat} {m m' : Memory} (h : m'.load addr = m.load addr) :
    m'.readWord addr = m.readWord addr := by
  simp only [readWord, h]

/-! ## The view -/

@[simp] theorem wordAt_zero (i : Nat) : zero.wordAt i = 0 := by
  simp [zero, wordAt, page, Words.get]

theorem page_setPage (m : Memory) (p q : Nat) (ws : Words) :
    (m.setPage p ws).page q = if p = q then ws else m.page q := by
  simp only [page, setPage, Std.HashMap.getElem?_insert, beq_iff_eq]
  split <;> rfl

theorem Words.get_toVector (ws : Words) {k : Nat} (hk : k < pageWords) :
    ws.toVector[k]?.getD 0 = ws.get k := by
  cases ws with
  | uniform w => simp [toVector, get, hk]
  | each a => rfl

theorem Words.get_set (ws : Words) {k l : Nat} (hk : k < pageWords) (hl : l < pageWords) (w : Nat) :
    (ws.set k w).get l = if k = l then w else ws.get l := by
  rw [← get_toVector ws hl]
  simp only [set, get, Vector.getElem?_setIfInBounds]
  split <;> simp [*]

theorem index_eq_iff {i j : Nat} :
    i = j ↔ i / pageWords = j / pageWords ∧ i % pageWords = j % pageWords := by
  simp only [pageWords]; omega

theorem wordAt_setWord (m : Memory) (i w j : Nat) :
    (m.setWord i w).wordAt j = if i = j then w else m.wordAt j := by
  rw [wordAt, setWord, page_setPage]
  split
  · rename_i hp
    rw [Words.get_set _ (Nat.mod_lt _ (by decide)) (Nat.mod_lt _ (by decide))]
    simp only [index_eq_iff (i := i), hp, true_and, wordAt]
  · rename_i hp
    simp [index_eq_iff (i := i), hp, wordAt]

theorem wordAt_setPage_uniform (m : Memory) (p w j : Nat) :
    (m.setPage p (.uniform w)).wordAt j = if j / pageWords = p then w else m.wordAt j := by
  rw [wordAt, page_setPage]
  grind [Words.get, wordAt]

theorem wordAt_fill (m : Memory) (i n w j : Nat) :
    (m.fill i n w).wordAt j = if i ≤ j ∧ j < i + n then w else m.wordAt j := by
  fun_induction fill m i n w with
  | case1 => grind
  | case2 m i n hn hp ih => rw [ih, wordAt_setPage_uniform]; grind
  | case3 m i n hn hp ih => rw [ih, wordAt_setWord]; grind

theorem page_erase (m : Memory) (p q : Nat) :
    ({ m with pages := m.pages.erase p } : Memory).page q =
      if p = q then .uniform 0 else m.page q := by
  simp only [page, Std.HashMap.getElem?_erase, beq_iff_eq]
  split <;> rfl

theorem page_release (m : Memory) (p n q : Nat) :
    (m.release p n).page q = if p ≤ q ∧ q < p + n then .uniform 0 else m.page q := by
  induction n generalizing m p with
  | zero => rw [release, if_neg (by omega)]
  | succ n ih => rw [release, ih, page_erase]; grind

theorem wordAt_release (m : Memory) (p n i : Nat) :
    (m.release p n).wordAt i =
      if p ≤ i / pageWords ∧ i / pageWords < p + n then 0 else m.wordAt i := by
  rw [wordAt, page_release, wordAt]
  split <;> rfl

@[simp] theorem wordAt_touch (m : Memory) (addr i : Nat) :
    (m.touch addr).wordAt i = m.wordAt i := rfl

@[simp] theorem wordAt_touchAll (m : Memory) (addrs : List Nat) (i : Nat) :
    (m.touchAll addrs).wordAt i = m.wordAt i := rfl

end Memory

end Tenured
