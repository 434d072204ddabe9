import Tenured.Generation.Consistency
import Tenured.Proofs.Generation.Tiled

/-!
# Look-ups and checks of consistency

Whatever starts are recorded besides those of the blocks, the check of the parts finds nothing
(`Marked.verify`), and the check of the look-ups comes down to one look-up for every block
(`Marked.verifyCrossings_iff`). Where the blocks are tiled, every address below the top is looked up
to the block that holds it, and both checks find nothing (`Tiled.verify`, `Tiled.verifyCrossings`).
This is so after every run from a new generation (`Run.consistent`).
-/

namespace Tenured.Generation

open Object (wordSize)

variable {g g₀ : Generation} {old : Region} {out : List Object} {ops : List Operation}

/-- What the crossing map covers lies in the reservation. -/
theorem Within.crossings_includes (h : Within g) :
    g.crossings.reserved.includes g.crossings.covered := by
  rw [CrossingMap.reserved, h.span_eq]
  exact Region.includes_of_bounds (h.crossings_start.trans h.bottom_eq) h.crossings_le

/-- The look-up of an address below the top finds the block that holds it wherever both side tables
cover the linear space. -/
theorem Tiled.lookUp (ht : Tiled g out) (h : Within g) {addr : Nat}
    (hs : g.objects.bottom ≤ addr) (ha : addr < g.objects.top) :
    ∃ o ∈ out, o.Holds addr ∧ g.crossings.find g.memory addr = .ok o.addr := by
  refine ht.records.find ht.tiles h.dvd_bottom ht.headers ?_ (Nat.le_of_eq h.crossings_start)
    h.crossings_includes ?_ hs ha
  · exact Nat.lt_of_le_of_lt h.top_le h.stop_lt
  · exact ⟨h.crossings_start ▸ hs, Nat.lt_of_lt_of_le ha (Nat.le_trans h.top_le h.le_crossings)⟩

/-- The look-up of an address finds the object that holds it. -/
def Finds (g : Generation) (out : List Object) (addr : Nat) : Prop :=
  ∃ o ∈ out, o.Holds addr ∧ g.startOf addr = .ok o.addr

/-- A generation of its own making looks starts up by its crossing map. -/
theorem Setup.Own.startOf_eq (ho : g.setup.Own) (addr : Nat) :
    g.startOf addr = g.crossings.find g.memory addr := by
  rw [startOf, show g.lookup = .byCrossings from ho.lookup_eq]

section Marked

variable {R : Nat → Prop} (ht : Marked g out R) (h : InLine g old)
include ht h

/-- A generation passes the check of its parts unless more is committed than the maximum. -/
theorem Marked.verify_iff : g.verify = .ok () ↔ old.size ≤ g.config.maxSize := by
  have hl : g.objects.top < Word.limit := Nat.lt_of_le_of_lt h.top_le h.stop_lt
  have hv : g.objects.verify g.memory = .ok () := by
    simp only [LinearSpace.verify, ht.tiles.verifyFrom h.within.dvd_bottom ht.headers hl, bind,
      Except.bind, check, if_true]
  by_cases hmax : old.size ≤ g.config.maxSize
  all_goals
    simp only [Generation.verify, hv, h.extent, bind, Except.bind, check, h.cards_eq,
      h.crossings_eq, h.reserved_includes, hmax, h.cursor_le, if_true, if_false, reduceCtorEq]

theorem Marked.verify (ho : g.setup.Own) : g.verify = .ok () := by
  refine (ht.verify_iff h).2 ?_
  have hsize : g.reserved.size = g.config.maxSize := ho.size_eq
  have := h.start_eq
  have := h.stop_le
  simp only [Region.size] at *
  omega

/-- The look-up of an object is checked at its second word only, since its start is recorded. -/
theorem Marked.verifyStart_iff {o : Object} (hmem : o ∈ out) :
    g.verifyStart o.addr = .ok () ↔ g.startOf (o.addr + wordSize) = .ok o.addr := by
  have hb := ht.tiles.bounds hmem
  have hmin : 16 ≤ o.size := (ht.tiles.allowed hmem).1
  have hl : g.objects.top < Word.limit := Nat.lt_of_le_of_lt h.top_le h.stop_lt
  have hspan : o.addr ∈ g.crossings.starts.span := by
    rw [h.within.span_eq, Region.mem_def, ← h.start_eq, ← h.bottom_eq]
    have := h.top_le
    have := h.stop_le
    omega
  have hadd : Word.add o.addr wordSize = .ok (o.addr + wordSize) := by
    refine Word.add_eq_ok_iff.2 ⟨?_, rfl⟩
    simp only [wordSize]
    omega
  simp only [Generation.verifyStart, ht.records.hasStart (ht.starts o hmem) hspan, hadd, bind,
    Except.bind, check, if_true]
  cases g.startOf (o.addr + wordSize) with
  | error e => simp
  | ok found => simp

omit ht h in
/-- The check goes from one object to the next, up to the top. -/
theorem verifyStartsFrom_eq_ok_iff {addr top : Nat} (ht : Object.Tiles addr top out)
    (hd : 8 ∣ addr) (hm : Object.Headers g.memory out) (hl : top < Word.limit) :
    g.verifyStartsFrom top addr = .ok () ↔ ∀ o ∈ out, g.verifyStart o.addr = .ok () := by
  induction ht with
  | nil =>
    rw [verifyStartsFrom, if_pos (Nat.le_refl _)]
    exact ⟨nofun, fun _ => rfl⟩
  | @cons a size stop os hmin hsize ht ih =>
    have hread : g.memory.readWord a = .ok size := Memory.readWord_eq_ok_iff.2 ⟨hd, hm _ (.head _)⟩
    have hle := ht.le
    have hpos := Object.minSize_pos
    obtain ⟨n, rfl⟩ : ∃ n, size = n + 1 := ⟨size - 1, by omega⟩
    rw [verifyStartsFrom, if_neg (by omega), List.forall_mem_cons,
      ← ih (Nat.dvd_add hd hsize) (fun o ho => hm o (.tail _ ho)) hl]
    simp only [hread]
    cases g.verifyStart a with
    | error e => simp [bind, Except.bind]
    | ok _ => simp [bind, Except.bind, show ¬ Word.limit ≤ a + (n + 1) by omega]

/-- The look-ups pass their check if every object is found from its second word. -/
theorem Marked.verifyCrossings_iff : g.verifyCrossings = .ok () ↔
    ∀ o ∈ out, g.startOf (o.addr + wordSize) = .ok o.addr := by
  rw [Generation.verifyCrossings, verifyStartsFrom_eq_ok_iff ht.tiles h.within.dvd_bottom ht.headers
    (Nat.lt_of_le_of_lt h.top_le h.stop_lt)]
  exact forall_congr' fun o => forall_congr' fun hmem => ht.verifyStart_iff h hmem

end Marked

section Tiled

variable (ht : Tiled g out) (h : InLine g old)
include ht h

/-- The look-up of an address below the top finds the one block that holds it, as the walk over the
headers does. -/
theorem Tiled.find {addr : Nat} (hs : g.objects.bottom ≤ addr) (ha : addr < g.objects.top) :
    ∃ o ∈ out, o.Holds addr ∧ g.crossings.find g.memory addr = .ok o.addr :=
  ht.lookUp h.within hs ha

theorem Tiled.finds (ho : g.setup.Own) {addr : Nat} (hs : g.objects.bottom ≤ addr)
    (ha : addr < g.objects.top) : g.Finds out addr := by
  simp only [Finds, ho.startOf_eq]
  exact ht.find h hs ha

theorem Tiled.verify_iff : g.verify = .ok () ↔ old.size ≤ g.config.maxSize :=
  (ht.marked h.within).verify_iff h

theorem Tiled.verify (ho : g.setup.Own) : g.verify = .ok () :=
  (ht.marked h.within).verify h ho

/-- A generation with tiled blocks passes the check of its look-ups. -/
theorem Tiled.verifyCrossings (ho : g.setup.Own) : g.verifyCrossings = .ok () := by
  refine ((ht.marked h.within).verifyCrossings_iff h).2 fun o hmem => ?_
  have hb := ht.tiles.bounds hmem
  have hmin : 16 ≤ o.size := (ht.tiles.allowed hmem).1
  have hin : o.Holds (o.addr + wordSize) := by
    simp only [Object.Holds, wordSize]
    omega
  obtain ⟨o', ho', hh', hf⟩ := ht.find h (Nat.le_trans hb.1 hin.1) (Nat.lt_of_lt_of_le hin.2 hb.2)
  obtain rfl := ht.tiles.eq_of_holds ho' hmem hh' hin
  rwa [ho.startOf_eq]

end Tiled

/-! ## After a run -/

section New

variable {sys : AddressSpace} {s : Setting} {c : Config} {name : String} {level id : Nat}
  (hc : (create sys s c name level id).outcome = .result g₀) (hr : Run g₀ ops out g)
include hc hr

/-- After every run from a new generation, the parts are in line, the blocks handed out are tiled,
and the reservation is the generation's own. -/
theorem Run.holds : ∃ region, InLine g region ∧ Tiled g out ∧ g.setup.Own := by
  obtain ⟨region₀, hnew⟩ := create_new hc
  obtain ⟨region, hin⟩ := hr.inLine hnew.toInLine
  exact ⟨region, hin, hr.tiled hnew.toInLine hnew.tiled, hr.setup_eq hnew.toInLine ▸ hnew.own⟩

/-- After every run from a new generation, the blocks handed out lie one after another from the
bottom to the top, the look-up of every address between them finds the one block that holds it, as
the walk over the headers does, and both checks pass. -/
theorem Run.consistent :
    Object.Tiles g.objects.bottom g.objects.top out ∧
    (∀ addr, g.objects.bottom ≤ addr → addr < g.objects.top →
      ∃ o ∈ out, o.Holds addr ∧ (∀ o' ∈ out, o'.Holds addr → o' = o) ∧
        g.crossings.find g.memory addr = .ok o.addr ∧
        CrossingMap.walk g.memory addr g.objects.bottom = .ok o.addr) ∧
    g.verify = .ok () ∧ g.verifyCrossings = .ok () := by
  obtain ⟨region, hin, ht, ho⟩ := hr.holds hc
  have hl : g.objects.top < Word.limit := Nat.lt_of_le_of_lt hin.top_le hin.stop_lt
  refine ⟨ht.tiles, fun addr hs ha => ?_, ht.verify hin ho, ht.verifyCrossings hin ho⟩
  obtain ⟨o, hmem, hh, hf⟩ := ht.find hin hs ha
  obtain ⟨o', hmem', hh', hw⟩ := ht.tiles.walk hin.within.dvd_bottom ht.headers hl hs ha
  obtain rfl := ht.tiles.eq_of_holds hmem hmem' hh hh'
  exact ⟨o, hmem, hh, fun o' ho' h' => ht.tiles.eq_of_holds ho' hmem h' hh, hf, hw⟩

end New

/-- A block whose payload looks like a header. -/
theorem Run.consistent_small : ∃ g₀ g, small.outcome = .result g₀ ∧
    Run g₀ [.handOut 2] [⟨65536, 16⟩] g ∧ g.memory.load 65544 = 16 ∧
    g.crossings.find g.memory 65544 = .ok 65536 ∧ g.verify = .ok () ∧
    g.verifyCrossings = .ok () := by
  have hrun : ∃ g₀, small.outcome = .result g₀ ∧
      ∃ g, (Operation.handOut 2).run g₀ = .ok [⟨65536, 16⟩] g ∧ g.objects.bottom = 65536 ∧
        g.objects.top = 65552 := ⟨_, rfl, _, rfl, rfl, rfl⟩
  obtain ⟨g₀, hc, g, hr, hb, ht⟩ := hrun
  have hrun : Run g₀ [.handOut 2] [⟨65536, 16⟩]
      { g with memory := g.memory.store 65544 16 } :=
    .store (.call .start hr) (.head _) (by decide) (by decide) 16
  obtain ⟨-, hfind, hv, hvc⟩ := Run.consistent hc hrun
  obtain ⟨o, ho, -, -, hf, -⟩ := hfind 65544 (hb ▸ by decide) (ht ▸ by decide)
  obtain rfl := List.mem_singleton.1 ho
  refine ⟨g₀, _, hc, hrun, ?_, hf, hv, hvc⟩
  rw [Memory.load_of_dvd (by decide), Memory.store_of_dvd (by decide), Memory.wordAt_setWord,
    if_pos rfl]

end Tenured.Generation
