import Tenured.Generation.Blocks
import Tenured.Proofs.Generation.Consistency

/-!
# The blocks of the iteration

An object belongs to the block that its start lies in (`Object.startingIn`). Where the objects lie
one after another, a visit to a block whose first address is looked up right finds those that belong
to it, in order (`Marked.blockObjects`); where the blocks are tiled, every visit does
(`Tiled.blockObjects`). The blocks cut the objects into runs of them
(`Object.Tiles.flatMap_startingIn`), so visits to all blocks, in any order, find every object once
(`Run.iteration_complete`).
-/

namespace Tenured

/-- The objects that start from one address on and below another. -/
def Object.startingIn (start stop : Nat) (os : List Object) : List Object :=
  os.filter fun o => start ≤ o.addr ∧ o.addr < stop

namespace Object.Tiles

variable {start stop : Nat} {os : List Object}

theorem tail {o : Object} (h : Tiles start stop (o :: os)) :
    o.addr = start ∧ Tiles (start + o.size) stop os := by
  cases h with
  | cons _ _ h => exact ⟨rfl, h⟩

theorem addr_lt (h : Tiles start stop os) {o : Object} (ho : o ∈ os) : o.addr < stop := by
  have := h.bounds ho
  have := (h.allowed ho).1
  have := Object.minSize_pos
  omega

/-- Objects one after another have increasing addresses. -/
theorem pairwise (h : Tiles start stop os) : os.Pairwise (·.addr < ·.addr) := by
  induction h with
  | nil => exact .nil
  | cons hmin hd h ih =>
    refine .cons (fun o ho => ?_) ih
    have := h.bounds ho
    have := Object.minSize_pos
    simp only
    omega

/-- Objects below one bound, and then those from there up to another bound. -/
theorem filter_append (h : Tiles start stop os) {a b : Nat} (hab : a ≤ b) :
    os.filter (·.addr < a) ++ startingIn a b os = os.filter (·.addr < b) := by
  induction h with
  | nil => rfl
  | @cons addr size stop os hmin hd h ih =>
    by_cases hlt : addr < a
    · have hb : addr < b := by omega
      have hn : ¬ a ≤ addr := by omega
      simpa [startingIn, List.filter_cons, hlt, hb, hn] using ih
    · -- From here on, all objects start at or above the first bound.
      have hall : ∀ o ∈ (⟨addr, size⟩ :: os : List Object), a ≤ o.addr := fun o ho =>
        Nat.le_trans (Nat.le_of_not_lt hlt) ((Tiles.cons hmin hd h).bounds ho).1
      rw [List.filter_eq_nil_iff.2 fun o ho => by simpa using hall o ho, List.nil_append]
      refine List.filter_congr fun o ho => ?_
      simp [hall o ho]

/-- Objects one after another, cut at the bounds of blocks of one size. -/
theorem flatMap_startingIn (h : Tiles start stop os) (size n : Nat) :
    (List.range n).flatMap (fun k => startingIn (start + k * size) (start + (k + 1) * size) os) =
      os.filter (·.addr < start + n * size) := by
  induction n with
  | zero =>
    refine (List.filter_eq_nil_iff.2 fun o ho => ?_).symm
    have := h.bounds ho
    simp only [decide_eq_true_eq]
    omega
  | succ n ih =>
    rw [List.range_succ, List.flatMap_append, ih, List.flatMap_singleton]
    exact h.filter_append (Nat.add_le_add_left (Nat.mul_le_mul_right _ (Nat.le_succ n)) _)

end Object.Tiles

namespace Generation

variable {g g₀ : Generation} {old : Region} {out : List Object} {ops : List Operation}

/-- The start of a block is looked at only if it is below the top. -/
theorem blockStart?_eq (g : Generation) (hl : g.objects.top < Word.limit) {k start : Nat}
    (hs : g.objects.bottom + k * g.config.iterationBlock = start) :
    (start < g.objects.top → g.blockStart? k = some start) ∧
      (g.objects.top ≤ start → g.blockStart? k = none) := by
  constructor
  · intro hlt
    have hm : Word.mul? k g.config.iterationBlock = some (k * g.config.iterationBlock) :=
      Word.mul?_eq_some_iff.2 ⟨by omega, rfl⟩
    have ha : Word.add? g.objects.bottom (k * g.config.iterationBlock) = some start :=
      Word.add?_eq_some_iff.2 ⟨by omega, hs.symm⟩
    simp only [blockStart?, hm, ha, Option.bind_eq_bind, Option.bind_some, hlt, if_true]
  · intro hge
    rw [Option.eq_none_iff_forall_ne_some]
    intro start' hsome
    simp only [blockStart?, Option.bind_eq_bind, Option.bind_eq_some_iff] at hsome
    obtain ⟨offset, hm, start'', ha, hsome⟩ := hsome
    obtain ⟨-, rfl⟩ := Word.mul?_eq_some_iff.1 hm
    obtain ⟨-, rfl⟩ := Word.add?_eq_some_iff.1 ha
    rw [if_neg (by omega)] at hsome
    cases hsome

section Marked

variable {R : Nat → Prop} (ht : Marked g out R) (h : InLine g old)
include ht h

/-- From an address that is looked up to the object that holds it, a visit begins at the first
object that starts there or above. -/
theorem Marked.firstFrom {start : Nat} (hf : g.Finds out start) :
    ∃ first before after, g.firstFrom start = .ok first ∧ out = before ++ after ∧
      (∀ o ∈ before, o.addr < start) ∧ start ≤ first ∧ 8 ∣ first ∧
      Object.Tiles first g.objects.top after := by
  have hl : g.objects.top < Word.limit := Nat.lt_of_le_of_lt h.top_le h.stop_lt
  obtain ⟨o, hmem, hh, hstart⟩ := hf
  have hb := ht.tiles.bounds hmem
  have hd := ht.tiles.dvd_addr h.within.dvd_bottom hmem
  obtain ⟨before, after, rfl, hbefore, hafter⟩ := ht.tiles.split hmem
  have hlow : ∀ b ∈ before, b.addr < o.addr := fun b hbm => by
    have := hbefore.bounds hbm
    have := (hbefore.allowed hbm).1
    have := Object.minSize_pos
    omega
  rcases Nat.lt_or_eq_of_le hh.1 with hlt' | heq
  · have hread : Object.read g.memory o.addr = .ok o := by
      rw [Object.read, Memory.readWord_eq_ok_iff.2 ⟨hd, ht.headers o hmem⟩]
      rfl
    have hstop : o.stop = .ok (o.addr + o.size) :=
      Word.add_eq_ok_iff.2 ⟨Nat.lt_of_le_of_lt hb.2 hl, rfl⟩
    refine ⟨o.addr + o.size, before ++ [o], after, ?_, by simp, ?_, Nat.le_of_lt hh.2,
      Nat.dvd_add hd (ht.tiles.allowed hmem).2, ?_⟩
    · simp only [Generation.firstFrom, hstart, hlt', if_true, hread, hstop, bind, Except.bind,
        check, Nat.le_of_lt hh.2]
      rfl
    · intro b hbm
      rcases List.mem_append.1 hbm with hbm | hbm
      · have := hlow b hbm
        omega
      · obtain rfl := List.mem_singleton.1 hbm
        exact hlt'
    · exact hafter.tail.2
  · refine ⟨o.addr, before, o :: after, ?_, rfl, fun b hbm => heq ▸ hlow b hbm,
      Nat.le_of_eq heq.symm, hd, hafter⟩
    simp only [Generation.firstFrom, hstart, heq, Nat.lt_irrefl, if_false, bind, Except.bind, pure,
      Except.pure, check, Nat.le_refl, if_true]

/-- Where the map has no start in the blocks of a range, no object starts in the range. -/
theorem Marked.startsIn {start stop : Nat} (hs : g.objects.bottom ≤ start) (hlt : start < stop)
    (hle : stop ≤ g.objects.top) : ∃ b, g.crossings.startsIn start stop = .ok b ∧
      (b = false → Object.startingIn start stop out = []) := by
  have hspan : ∀ addr, g.objects.bottom ≤ addr → addr < g.objects.top →
      addr ∈ g.crossings.starts.span := fun addr ha hb => by
    rw [h.within.span_eq, Region.mem_def, ← h.start_eq, ← h.bottom_eq]
    exact ⟨ha, Nat.lt_of_lt_of_le hb (Nat.le_trans h.top_le h.stop_le)⟩
  have hstart := hspan start hs (Nat.lt_of_lt_of_le hlt hle)
  have hlast := hspan (stop - 1) (by omega) (by omega)
  obtain ⟨b, hb, hiff⟩ := ht.records.startsIn hlt hstart hlast
  refine ⟨b, hb, ?_⟩
  rintro rfl
  refine List.filter_eq_nil_iff.2 fun o hmem hin => ?_
  simp only [decide_eq_true_eq] at hin
  have hle : o.addr ≤ stop - 1 := Nat.le_sub_one_of_lt hin.2
  exact absurd (hiff.2 ⟨o.addr, ht.starts o hmem, BlockTable.blockAt_mono hin.1,
    BlockTable.blockAt_mono hle⟩) nofun

/-- A visit to a range in which starts are recorded finds the objects that start in it if the first
address of the range is looked up to the object that holds it. -/
theorem Marked.visit {start stop : Nat} (hs : g.objects.bottom ≤ start) (hlt : start < stop)
    (hle : stop ≤ g.objects.top)
    (hf : g.crossings.startsIn start stop = .ok true → g.Finds out start) :
    (do if ← g.crossings.startsIn start stop then
          LinearSpace.objectsFrom g.memory stop (← g.firstFrom start) #[]
        else return #[] : Except Fault (Array Object)) =
      .ok (Object.startingIn start stop out).toArray := by
  have hl : g.objects.top < Word.limit := Nat.lt_of_le_of_lt h.top_le h.stop_lt
  obtain ⟨b, hb, hnone⟩ := ht.startsIn h hs hlt hle
  simp only [hb, bind, Except.bind]
  cases b with
  | false =>
    rw [hnone rfl]
    rfl
  | true =>
    obtain ⟨first, before, after, hfirst, rfl, hbefore, hge, hd, hafter⟩ := ht.firstFrom h (hf hb)
    simp only [if_true, hfirst]
    rw [hafter.objectsFrom hd (fun o hmem => ht.headers o (List.mem_append_right _ hmem)) hl hle]
    have h₁ : Object.startingIn start stop before = [] := by
      refine List.filter_eq_nil_iff.2 fun o hmem hin => ?_
      have := hbefore o hmem
      simp only [decide_eq_true_eq] at hin
      omega
    have h₂ : Object.startingIn start stop after = after.filter (·.addr < stop) := by
      refine List.filter_congr fun o hmem => ?_
      have := (hafter.bounds hmem).1
      rw [decide_eq_decide]
      omega
    rw [Object.startingIn, List.filter_append, ← Object.startingIn, h₁, ← Object.startingIn, h₂]
    simp

omit h in
/-- No object starts from the top on. -/
theorem Marked.startingIn_min (start stop : Nat) :
    Object.startingIn start (min g.objects.top stop) out = Object.startingIn start stop out := by
  refine List.filter_congr fun o hmem => ?_
  have := ht.tiles.addr_lt hmem
  rw [decide_eq_decide]
  omega

omit h in
theorem Marked.startingIn_of_le {start : Nat} (hge : g.objects.top ≤ start) (stop : Nat) :
    Object.startingIn start stop out = [] := by
  refine List.filter_eq_nil_iff.2 fun o hmem hin => ?_
  have := ht.tiles.addr_lt hmem
  simp only [decide_eq_true_eq] at hin
  omega

/-- A visit to a block in which starts are recorded finds the objects that start in it if the first
address of the block is looked up to the object that holds it. A visit to any other block finds
none, and none start there. -/
theorem Marked.blockObjects (k : Nat)
    (hf : g.objects.bottom + k * g.config.iterationBlock < g.objects.top →
      g.crossings.startsIn (g.objects.bottom + k * g.config.iterationBlock)
        (min g.objects.top (g.objects.bottom + (k + 1) * g.config.iterationBlock)) = .ok true →
      g.Finds out (g.objects.bottom + k * g.config.iterationBlock)) :
    g.blockObjects k = .ok (Object.startingIn
      (g.objects.bottom + k * g.config.iterationBlock)
      (g.objects.bottom + (k + 1) * g.config.iterationBlock) out).toArray := by
  have hl : g.objects.top < Word.limit := Nat.lt_of_le_of_lt h.top_le h.stop_lt
  have hd : CrossingMap.blockSize ∣ g.config.iterationBlock := h.sound.usable.dvd_iterationBlock
  have hpos : 0 < g.config.iterationBlock := h.sound.usable.iterationBlock_pos
  have hm : g.config.iterationBlock % CrossingMap.blockSize = 0 := Nat.mod_eq_zero_of_dvd hd
  rw [Nat.succ_mul, ← Nat.add_assoc] at hf ⊢
  generalize hstart : g.objects.bottom + k * g.config.iterationBlock = start at hf ⊢
  simp only [Generation.blockObjects, check, hm, if_true]
  by_cases hlt : start < g.objects.top
  · have hstop : min g.objects.top (Word.addSat start g.config.iterationBlock) =
        min g.objects.top (start + g.config.iterationBlock) := by
      simp only [Word.addSat, Word.max, Word.limit] at hl ⊢
      omega
    rw [(g.blockStart?_eq hl hstart).1 hlt, ← ht.startingIn_min, ← ht.visit h
      (hstart ▸ Nat.le_add_right ..) (Nat.lt_min.2 ⟨hlt, by omega⟩) (Nat.min_le_left ..) (hf hlt),
      ← hstop]
    rfl
  · have hge := Nat.le_of_not_lt hlt
    rw [(g.blockStart?_eq hl hstart).2 hge, ht.startingIn_of_le hge]
    rfl

end Marked

section Tiled

variable (ht : Tiled g out) (h : InLine g old) (ho : g.setup.Own)
include ht h ho

/-- A visit to a block finds the objects that start in it. -/
theorem Tiled.blockObjects (k : Nat) : g.blockObjects k = .ok (Object.startingIn
    (g.objects.bottom + k * g.config.iterationBlock)
    (g.objects.bottom + (k + 1) * g.config.iterationBlock) out).toArray :=
  (ht.marked h.within).blockObjects h k fun hlt _ => ht.finds h ho (Nat.le_add_right ..) hlt

/-- As many blocks are counted as it takes to reach the top, and those after them are empty. -/
theorem Tiled.blockCount : ∃ n, g.blockCount = .ok n ∧
    g.objects.top ≤ g.objects.bottom + n * g.config.iterationBlock ∧
    ∀ k, n ≤ k → g.blockObjects k = .ok #[] := by
  have hpos : 0 < g.config.iterationBlock := h.sound.usable.iterationBlock_pos
  have hused : g.objects.bottom + (g.objects.top - old.start) = g.objects.top := by
    rw [h.bottom_eq, Nat.add_sub_cancel' h.bottom_le_top]
  have hcount : g.blockCount = .ok ((g.objects.top - old.start + (g.config.iterationBlock - 1)) /
      g.config.iterationBlock) := by
    simp only [Generation.blockCount, h.used, bind, Except.bind]
    rfl
  generalize hn : (g.objects.top - old.start + (g.config.iterationBlock - 1)) /
    g.config.iterationBlock = n at hcount
  have hreach : g.objects.top ≤ g.objects.bottom + n * g.config.iterationBlock := by
    have := Nat.lt_mul_div_succ (g.objects.top - old.start + (g.config.iterationBlock - 1)) hpos
    rw [hn, Nat.mul_succ, Nat.mul_comm] at this
    omega
  refine ⟨n, hcount, hreach, fun k hk => ?_⟩
  have hle : n * g.config.iterationBlock ≤ k * g.config.iterationBlock := Nat.mul_le_mul_right _ hk
  rw [ht.blockObjects h ho, (ht.marked h.within).startingIn_of_le
    (Nat.le_trans hreach (Nat.add_le_add_left hle _))]

/-- Visits to blocks in some order find what starts in each of them, in that order. -/
theorem Tiled.mapM_blockObjects (order : List Nat) : order.mapM g.blockObjects =
    .ok (order.map fun k => (Object.startingIn (g.objects.bottom + k * g.config.iterationBlock)
      (g.objects.bottom + (k + 1) * g.config.iterationBlock) out).toArray) := by
  rw [funext (ht.blockObjects h ho)]
  exact List.mapM_pure

omit ho in
theorem Tiled.allObjects : g.allObjects = .ok out.toArray := by
  have hl : g.objects.top < Word.limit := Nat.lt_of_le_of_lt h.top_le h.stop_lt
  rw [Generation.allObjects, LinearSpace.objects,
    ht.tiles.objectsFrom h.within.dvd_bottom ht.headers hl (Nat.le_refl _),
    List.filter_eq_self.2 fun o hmem => decide_eq_true (ht.tiles.addr_lt hmem), Array.empty_append]

end Tiled

/-! ## After a run -/

section New

variable {sys : AddressSpace} {s : Setting} {c : Config} {name : String} {level id : Nat}
  (hc : (create sys s c name level id).outcome = .result g₀) (hr : Run g₀ ops out g)
include hc hr

/-- After every run from a new generation, a visit to a block finds exactly the objects that start
in it, in the order of their addresses, and blocks beyond the last hold none. Visits to all blocks
in any order find every object once, and in ascending order, also shared among the workers, they
find the objects as a visit to all of them does. -/
theorem Run.iteration_complete :
    out.Pairwise (·.addr < ·.addr) ∧ g.allObjects = .ok out.toArray ∧
    (∀ k, g.blockObjects k = .ok (Object.startingIn (g.objects.bottom + k * c.iterationBlock)
      (g.objects.bottom + (k + 1) * c.iterationBlock) out).toArray) ∧
    ∃ n, g.blockCount = .ok n ∧ (∀ k, n ≤ k → g.blockObjects k = .ok #[]) ∧
      (∀ order : List Nat, order.Perm (List.range n) →
        ∃ visits, order.mapM g.blockObjects = .ok visits ∧
          (visits.flatMap Array.toList).Perm out) ∧
      ∃ visits, (List.range n).mapM g.blockObjects = .ok visits ∧
        g.objectsByBlock = .ok visits ∧ visits.flatMap Array.toList = out := by
  obtain ⟨region, hin, ht, ho⟩ := hr.holds hc
  obtain ⟨n, hn, hreach, hempty⟩ := ht.blockCount hin ho
  have hconfig : g.config = c := by
    obtain ⟨region₀, hnew⟩ := create_new hc
    exact (config_eq_of_setup (hr.setup_eq hnew.toInLine)).trans hnew.config_eq
  -- The objects of all blocks, one block after another, are all objects.
  have hall : ((List.range n).map fun k =>
      (Object.startingIn (g.objects.bottom + k * g.config.iterationBlock)
        (g.objects.bottom + (k + 1) * g.config.iterationBlock) out).toArray).flatMap Array.toList =
      out := by
    rw [List.flatMap_map, ht.tiles.flatMap_startingIn, List.filter_eq_self]
    intro o hmem
    exact decide_eq_true (Nat.lt_of_lt_of_le (ht.tiles.addr_lt hmem) hreach)
  refine ⟨ht.tiles.pairwise, ht.allObjects hin, hconfig ▸ ht.blockObjects hin ho, n, hn, hempty,
    fun order hperm => ⟨_, ht.mapM_blockObjects hin ho order, ?_⟩,
    _, ht.mapM_blockObjects hin ho _, ?_, hall⟩
  · have hmap := hperm.map fun k =>
      (Object.startingIn (g.objects.bottom + k * g.config.iterationBlock)
        (g.objects.bottom + (k + 1) * g.config.iterationBlock) out).toArray
    have := hmap.flatMap_right Array.toList
    rwa [hall] at this
  · obtain ⟨count, hw⟩ := ho.workers_eq
    rw [objectsByBlock, hn, show g.workers = Workers.ofCount count from hw]
    simp only [bind, Except.bind, Workers.run_ofCount]
    exact ht.mapM_blockObjects hin ho _

end New

set_option maxRecDepth 4000 in
/-- Two objects, the second of which starts in the first block and reaches into the second. -/
theorem Run.iteration_complete_small : ∃ g₀ g, small.outcome = .result g₀ ∧
    Run g₀ [.handOut 40, .handOut 40] [⟨65536, 320⟩, ⟨65856, 320⟩] g ∧
    g.blockObjects 0 = .ok #[⟨65536, 320⟩, ⟨65856, 320⟩] ∧ g.blockObjects 1 = .ok #[] ∧
    g.blockCount = .ok 2 ∧ g.allObjects = .ok #[⟨65536, 320⟩, ⟨65856, 320⟩] := by
  have hrun : ∃ g₀, small.outcome = .result g₀ ∧
      ∃ g₁, (Operation.handOut 40).run g₀ = .ok [⟨65536, 320⟩] g₁ ∧
      ∃ g, (Operation.handOut 40).run g₁ = .ok [⟨65856, 320⟩] g ∧ g.objects.bottom = 65536 ∧
        g.blockCount = .ok 2 := ⟨_, rfl, _, rfl, _, rfl, rfl, rfl⟩
  obtain ⟨g₀, hc, g₁, hr₁, g, hr₂, hb, hn⟩ := hrun
  have hrun : Run g₀ [.handOut 40, .handOut 40] [⟨65536, 320⟩, ⟨65856, 320⟩] g :=
    .call (.call .start hr₁) hr₂
  obtain ⟨-, hall, hblock, -⟩ := Run.iteration_complete hc hrun
  refine ⟨g₀, g, hc, hrun, (hblock 0).trans ?_, (hblock 1).trans ?_, hn, hall⟩
  · rw [hb]; rfl
  · rw [hb]; rfl

end Generation

end Tenured
