import Mathlib.Algebra.GroupWithZero.Nat
import Tenured.CrossingMap
import Tenured.LinearSpace
import Tenured.Proofs.Attempt

/-!
# Objects one after another

`Object.Tiles start stop os` says that the objects `os` lie one after another from `start` up to
`stop`, and `Object.Headers m os` that each has its size in its header. All walks over such objects
go from one to the next. They read a header only where it may lie, at a multiple of eight, which the
sizes lead to if the first object starts at one (`Object.Tiles.dvd_addr`):

* `Object.Tiles.walk`: the search for an address ends at the one object that holds it.
* `Object.Tiles.objectsFrom`: a walk up to a limit finds the objects that start below the limit.
* `Object.Tiles.verifyFrom`: the sizes lead exactly to the end.

In any memory a walk passes objects of the sizes that it finds, as long as it can
(`Object.Passes`). It can go on only finitely often, as each step takes it further up
(`Object.exists_passes`).
-/

namespace Tenured.Object

/-- The objects lie one after another from the first address up to the second. -/
inductive Tiles : Nat → Nat → List Object → Prop
  | nil {addr : Nat} : Tiles addr addr []
  | cons {addr size stop : Nat} {os : List Object} (hmin : minSize ≤ size) (hd : 8 ∣ size)
    (h : Tiles (addr + size) stop os) : Tiles addr stop (⟨addr, size⟩ :: os)

/-- Every object has its size in its header. -/
def Headers (m : Memory) (os : List Object) : Prop :=
  ∀ o ∈ os, m.load o.addr = o.size

/-- An address lies in an object. -/
def Holds (o : Object) (addr : Nat) : Prop :=
  o.addr ≤ addr ∧ addr < o.addr + o.size

instance (o : Object) (addr : Nat) : Decidable (o.Holds addr) :=
  inferInstanceAs (Decidable (_ ∧ _))

theorem minSize_pos : 0 < minSize := by decide

namespace Tiles

variable {start stop : Nat} {os os' : List Object} {o o' : Object}

theorem le (h : Tiles start stop os) : start ≤ stop := by
  induction h with
  | nil => exact Nat.le_refl _
  | cons _ _ _ ih => omega

theorem append {mid : Nat} (h : Tiles start mid os) (h' : Tiles mid stop os') :
    Tiles start stop (os ++ os') := by
  induction h with
  | nil => exact h'
  | cons hmin hd _ ih => exact .cons hmin hd (ih h')

theorem concat {size : Nat} (h : Tiles start stop os) (hmin : minSize ≤ size) (hd : 8 ∣ size) :
    Tiles start (stop + size) (os ++ [⟨stop, size⟩]) :=
  h.append (.cons hmin hd .nil)

theorem bounds (h : Tiles start stop os) (ho : o ∈ os) :
    start ≤ o.addr ∧ o.addr + o.size ≤ stop := by
  induction h with
  | nil => cases ho
  | @cons addr size stop os _ _ h ih =>
    have := h.le
    rcases List.mem_cons.1 ho with rfl | ho
    · exact ⟨Nat.le_refl _, this⟩
    · have := ih ho
      omega

theorem allowed (h : Tiles start stop os) (ho : o ∈ os) : minSize ≤ o.size ∧ 8 ∣ o.size := by
  induction h with
  | nil => cases ho
  | cons hmin hd _ ih =>
    rcases List.mem_cons.1 ho with rfl | ho
    · exact ⟨hmin, hd⟩
    · exact ih ho

theorem dvd_addr (h : Tiles start stop os) (hs : 8 ∣ start) (ho : o ∈ os) : 8 ∣ o.addr := by
  induction h with
  | nil => cases ho
  | cons _ hd _ ih =>
    rcases List.mem_cons.1 ho with rfl | ho
    · exact hs
    · exact ih (Nat.dvd_add hs hd) ho

/-- The objects from one of them on lie one after another, too. -/
theorem split (h : Tiles start stop os) (ho : o ∈ os) :
    ∃ before after, os = before ++ o :: after ∧ Tiles start o.addr before ∧
      Tiles o.addr stop (o :: after) := by
  induction h with
  | nil => cases ho
  | @cons addr size stop os hmin hd h ih =>
    rcases List.mem_cons.1 ho with rfl | ho
    · exact ⟨[], os, rfl, .nil, .cons hmin hd h⟩
    · obtain ⟨before, after, rfl, hb, ha⟩ := ih ho
      exact ⟨_ :: before, after, rfl, .cons hmin hd hb, ha⟩

/-- Every address between the bounds lies in an object. -/
theorem exists_holds (h : Tiles start stop os) {addr : Nat} (hs : start ≤ addr) (ht : addr < stop) :
    ∃ o ∈ os, o.Holds addr := by
  induction h with
  | nil => omega
  | @cons a size stop os _ _ _ ih =>
    rcases Nat.lt_or_ge addr (a + size) with hlt | hge
    · exact ⟨_, .head _, hs, hlt⟩
    · obtain ⟨o, ho, hh⟩ := ih hge ht
      exact ⟨o, .tail _ ho, hh⟩

/-- No address lies in two objects. -/
theorem eq_of_holds (h : Tiles start stop os) {addr : Nat} (ho : o ∈ os) (ho' : o' ∈ os)
    (ha : o.Holds addr) (ha' : o'.Holds addr) : o = o' := by
  unfold Holds at ha ha'
  induction h with
  | nil => cases ho
  | @cons a size stop os _ _ h ih =>
    rcases List.mem_cons.1 ho with rfl | ho <;> rcases List.mem_cons.1 ho' with rfl | ho'
    · rfl
    · have := h.bounds ho'
      dsimp only at ha
      omega
    · have := h.bounds ho
      dsimp only at ha'
      omega
    · exact ih ho ho'

theorem holds_addr (h : Tiles start stop os) (ho : o ∈ os) : o.Holds o.addr := by
  have := (h.allowed ho).1
  have := minSize_pos
  exact ⟨Nat.le_refl _, by omega⟩

/-- Objects that start inside each other are equal. -/
theorem eq_of_addr_holds (h : Tiles start stop os) (ho : o ∈ os) (ho' : o' ∈ os)
    (ha : o.Holds o'.addr) : o = o' :=
  h.eq_of_holds ho ho' ha (h.holds_addr ho')

/-! ## Walks over them -/

variable {m : Memory}

/-- From the first object on, the search for an address ends at the object that holds it. -/
theorem walk (h : Tiles start stop os) (hd : 8 ∣ start) (hm : Headers m os) (hl : stop < Word.limit)
    {addr : Nat} (hs : start ≤ addr) (ha : addr < stop) :
    ∃ o ∈ os, o.Holds addr ∧ CrossingMap.walk m addr start = .ok o.addr := by
  induction h with
  | nil => omega
  | @cons a size stop os hmin hsize h ih =>
    have hread : m.readWord a = .ok size := Memory.readWord_eq_ok_iff.2 ⟨hd, hm _ (.head _)⟩
    have hpos := minSize_pos
    have hle := h.le
    rw [CrossingMap.walk, hread]
    dsimp only
    rw [if_neg (by omega), if_neg (by omega)]
    rcases Nat.lt_or_ge addr (a + size) with hlt | hge
    · exact ⟨_, .head _, ⟨hs, hlt⟩, if_pos hlt⟩
    · obtain ⟨o, ho, hh, hw⟩ :=
        ih (Nat.dvd_add hd hsize) (fun o ho => hm o (.tail _ ho)) hl hge ha
      exact ⟨o, .tail _ ho, hh, by rw [if_neg (by omega), hw]⟩

/-- From any object on, the search for an address at or above it ends at the object that holds
it. -/
theorem walk_from (h : Tiles start stop os) (hd : 8 ∣ start) (hm : Headers m os)
    (hl : stop < Word.limit) (ho : o ∈ os) {addr : Nat} (hs : o.addr ≤ addr) (ha : addr < stop) :
    ∃ o' ∈ os, o'.Holds addr ∧ CrossingMap.walk m addr o.addr = .ok o'.addr := by
  have hdvd := h.dvd_addr hd ho
  obtain ⟨before, after, rfl, -, hafter⟩ := h.split ho
  obtain ⟨o', ho', hh, hw⟩ := hafter.walk hdvd
    (fun o ho => hm o (List.mem_append_right _ ho)) hl hs ha
  exact ⟨o', List.mem_append_right _ ho', hh, hw⟩

theorem objectsFrom (h : Tiles start stop os) (hd : 8 ∣ start) (hm : Headers m os)
    (hl : stop < Word.limit) {limit : Nat} (ht : limit ≤ stop) (found : Array Object) :
    LinearSpace.objectsFrom m limit start found =
      .ok (found ++ (os.filter (·.addr < limit)).toArray) := by
  induction h generalizing found with
  | nil =>
    rw [LinearSpace.objectsFrom, if_pos ht]
    exact congrArg Except.ok Array.append_empty.symm
  | @cons a size stop os hmin hsize h ih =>
    have hread : m.readWord a = .ok size := Memory.readWord_eq_ok_iff.2 ⟨hd, hm _ (.head _)⟩
    have hpos := minSize_pos
    have hle := h.le
    rw [LinearSpace.objectsFrom]
    by_cases hlt : a < limit
    · rw [if_neg (by omega), hread]
      dsimp only
      rw [if_neg (by omega), if_neg (by omega),
        ih (Nat.dvd_add hd hsize) (fun o ho => hm o (.tail _ ho)) hl ht,
        List.filter_cons_of_pos (by simpa using hlt)]
      simp
    · have hnone : List.filter (·.addr < limit) (⟨a, size⟩ :: os) = [] := by
        refine List.filter_eq_nil_iff.2 fun o ho => ?_
        have := (Tiles.cons hmin hsize h).bounds ho
        simp only [decide_eq_true_eq]
        omega
      rw [if_pos (Nat.le_of_not_lt hlt), hnone]
      exact congrArg Except.ok Array.append_empty.symm

theorem verifyFrom (h : Tiles start stop os) (hd : 8 ∣ start) (hm : Headers m os)
    (hl : stop < Word.limit) : LinearSpace.verifyFrom m stop start = .ok stop := by
  induction h with
  | nil => rw [LinearSpace.verifyFrom, if_pos (Nat.le_refl _)]; rfl
  | @cons a size stop os hmin hsize h ih =>
    have hread : m.readWord a = .ok size := Memory.readWord_eq_ok_iff.2 ⟨hd, hm _ (.head _)⟩
    have hpos := minSize_pos
    have hle := h.le
    have hallowed : ¬ (size < minSize ∨ size % alignment ≠ 0) := by
      have : size % alignment = 0 := Nat.mod_eq_zero_of_dvd hsize
      omega
    rw [LinearSpace.verifyFrom, if_neg (by omega), hread]
    dsimp only
    rw [if_neg hallowed, if_neg (by omega),
      ih (Nat.dvd_add hd hsize) (fun o ho => hm o (.tail _ ho)) hl]

end Tiles

/-! ## Walks in any memory -/

/-- From one address to another a walk passes objects of the given sizes. Each starts below the top
and at a multiple of eight, has a size that the walk accepts and ends within the address space. -/
inductive Passes (accepts : Nat → Prop) (m : Memory) (top : Nat) : Nat → List Nat → Nat → Prop
  | here {addr : Nat} : Passes accepts m top addr [] addr
  | next {addr size stop : Nat} {sizes : List Nat} (hlt : addr < top)
    (hr : m.readWord addr = .ok size) (ha : accepts size) (hw : addr + size < Word.limit)
    (h : Passes accepts m top (addr + size) sizes stop) :
    Passes accepts m top addr (size :: sizes) stop

variable {m : Memory} {accepts : Nat → Prop} {addr top stop : Nat} {sizes : List Nat}

namespace Passes

theorem stop_eq (h : Passes accepts m top addr sizes stop) : stop = addr + sizes.sum := by
  induction h with
  | here => rfl
  | next _ _ _ _ _ ih => rw [ih, List.sum_cons, Nat.add_assoc]

theorem chain (h : Passes accepts m top addr sizes stop) : Chain m addr sizes := by
  induction h with
  | here => trivial
  | next _ hr _ _ _ ih => exact ⟨(Memory.readWord_eq_ok_iff.1 hr).2, ih⟩

theorem accepted (h : Passes accepts m top addr sizes stop) : ∀ n ∈ sizes, accepts n := by
  induction h with
  | here => nofun
  | next _ _ ha _ _ ih => exact List.forall_mem_cons.2 ⟨ha, ih⟩

/-- Sizes that are multiples of eight lead from one such address to another. -/
theorem dvd_stop (h : Passes accepts m top addr sizes stop) (hd : 8 ∣ addr)
    (hs : ∀ n ∈ sizes, 8 ∣ n) : 8 ∣ stop := by
  induction h with
  | here => exact hd
  | next _ _ _ _ _ ih =>
    obtain ⟨hsize, hs⟩ := List.forall_mem_cons.1 hs
    exact ih (Nat.dvd_add hd hsize) hs

/-- Only as many objects of a least size are passed as start below the top. -/
theorem length_lt (h : Passes accepts m top addr sizes stop) {least : Nat} (hpos : 0 < least)
    (hmin : ∀ n, accepts n → least ≤ n) : least * sizes.length < top - addr + least := by
  induction h with
  | here =>
    rw [List.length_nil, Nat.mul_zero]
    omega
  | @next addr size stop sizes hlt _ ha _ h ih =>
    have := hmin _ ha
    rw [List.length_cons, Nat.mul_succ]
    cases h with
    | here =>
      rw [List.length_nil, Nat.mul_zero]
      omega
    | next hlt' => omega

end Passes

/-- Why a walk cannot go on from an address: it has come to the top, no header can lie there, the
size is not one that it accepts, or the size leads beyond the last address. -/
inductive Stuck (accepts : Nat → Prop) (m : Memory) (top stop : Nat) : Prop
  | top (hle : top ≤ stop)
  | misaligned (hlt : stop < top) (hd : ¬ 8 ∣ stop)
  | refused (hlt : stop < top) (hd : 8 ∣ stop) (ha : ¬ accepts (m.load stop))
  | overflow (hlt : stop < top) (hd : 8 ∣ stop) (ha : accepts (m.load stop))
    (hw : Word.limit ≤ stop + m.load stop)

/-- A walk that accepts no size of zero comes to an address from which it cannot go on. -/
theorem exists_passes (hpos : ∀ n, accepts n → 0 < n) (m : Memory) (top addr : Nat) :
    ∃ sizes stop, Passes accepts m top addr sizes stop ∧ Stuck accepts m top stop := by
  by_cases hlt : addr < top
  · by_cases hd : 8 ∣ addr
    · by_cases ha : accepts (m.load addr)
      · by_cases hw : addr + m.load addr < Word.limit
        · have := hpos _ ha
          obtain ⟨sizes, stop, h, hstuck⟩ := exists_passes hpos m top (addr + m.load addr)
          exact ⟨_ :: sizes, stop, .next hlt (Memory.readWord_of_dvd hd m) ha hw h, hstuck⟩
        · exact ⟨[], addr, .here, .overflow hlt hd ha (Nat.le_of_not_lt hw)⟩
      · exact ⟨[], addr, .here, .refused hlt hd ha⟩
    · exact ⟨[], addr, .here, .misaligned hlt hd⟩
  · exact ⟨[], addr, .here, .top (Nat.le_of_not_lt hlt)⟩
termination_by top - addr

end Tenured.Object
