import Tenured.Proofs.Generation.Touches
import Tenured.Proofs.Workers

/-!
# Room in a reservation

A new generation grows until its reservation is used up (`Grows.reaches`), and no step of that ends
in a fault where the system places mappings in the lower half of the address space
(`create_canGrow`). So whether a block is handed out is decided by what is left of the reservation
above the top, and not by what is committed (`Run.allocates_iff_room`).
-/

namespace Tenured

open Object (wordSize minWords)

/-- Every mapping lies in the lower half of the address space, as those of processes do. -/
def AddressSpace.InLowerHalf (sys : AddressSpace) : Prop :=
  ∀ size base, sys.place size = .ok base → base + size ≤ Word.limit / 2

theorem AddressSpace.inLowerHalf_ofBase {base : Nat} (h : base ≤ Word.limit / 4) :
    (ofBase base).InLowerHalf := by
  intro size b hb
  obtain ⟨hsize, rfl⟩ := place_ofBase hb
  simp only [Word.limit] at h ⊢
  omega

namespace Generation

open Tenured.Action

variable {g g' g₀ : Generation} {old : Region} {out : List Object} {ops : List Operation}
  {words : Nat}

/-! ## Growth that cannot fail -/

/-- A reservation in the lower half of the address space can be touched. -/
theorem Assembled.canGrow {s : Setting} {c : Config} {parts : Parts} {committed r : Region}
    (h : Assembled s c parts g committed) (hf : parts.Fit r)
    (hstop : c.touchCommitted = true → r.stop ≤ Word.limit / 2)
    (hstep : c.perNode = true → c.alignment * c.nodeCount s.machine < Word.limit) :
    g.setup.CanGrow where
  exists_touches ht start stop _ hle := by
    have hsound := h.sound hf
    have hr : g.setup.reserved = r := h.reserved_eq_region hf
    have hw : g.setup.workers = Workers.ofCount (c.workerCount s.machine) := h.workers_eq
    have hc : g.setup.config = c := h.config_eq
    rw [TouchPlan.touches, Setup.touchPlan, hw]
    exact Workers.exists_touches_of_le_half _ hsound.isPowerOfTwo_stride hsound.stride_lt
      (Nat.le_trans hle (hr ▸ hstop (hc ▸ ht)))
  step_lt hper := by
    have hc : g.setup.config = c := h.config_eq
    have hnodes : g.setup.nodes = if c.perNode then c.nodeCount s.machine else 1 := h.nodes_eq
    rw [hc] at hper ⊢
    rw [hnodes, if_pos hper]
    exact hstep hper

/-! ## Blocks and the room for them -/

section HandsOut

variable {r : Option Nat} (ho : HandsOut g words r g')
include ho

theorem HandsOut.top_of_ne_none (hr : r ≠ Option.none) :
    g'.objects.top = g.objects.top + words * wordSize := by
  cases ho with
  | none _ => exact absurd rfl hr
  | some hc ht => rw [ht.objects_eq, hc.objects_eq]

theorem HandsOut.of_le (hle : g.objects.top + words * wordSize ≤ g.objects.stop) :
    r = Option.some g.objects.top ∧ g'.objects.top = g.objects.top + words * wordSize := by
  cases ho with
  | none hlt => omega
  | some hc ht => exact ⟨rfl, (HandsOut.some hc ht).top_of_ne_none nofun⟩

theorem HandsOut.of_lt (hlt : g.objects.stop < g.objects.top + words * wordSize) :
    r = Option.none ∧ g' = g := by
  cases ho with
  | none _ => exact ⟨rfl, rfl⟩
  | some hc _ =>
    have := hc.le_stop
    omega

end HandsOut

/-- Growth either provides what was asked for or reaches the end of the reservation. -/
theorem Grows.reaches {bytes : Nat} {granted : Bool} (hg : Grows g bytes granted g')
    (hgr : ∀ n m b, g.setup.grants n m b = true) (hpos : 0 < bytes) (hlt : bytes < Word.limit) :
    g.objects.stop + bytes ≤ g'.objects.stop ∨ g'.objects.stop = g.reserved.stop := by
  cases hg with
  | nothing _ hb => exact absurd (hb hlt) (Nat.ne_of_gt hpos)
  | grown hg hs =>
    rw [hg.objects_eq]
    exact hs hlt
  | refused ha hr =>
    rw [ha.objects_eq]
    exact .inr (hr hgr)

theorem Raised.reserved_eq (h : Raised g g') : g'.reserved = g.reserved :=
  reserved_eq_of_setup h.changes.setup_eq

/-- However much a generation grows, it stays in its reservation. -/
theorem Raised.stop_le_reserved (hr : Raised g g') (h : InLine g old) :
    g'.objects.stop ≤ g.reserved.stop := by
  obtain ⟨region, hin⟩ := hr.changes.inLine h
  rw [← hr.reserved_eq, hin.end_eq]
  exact hin.stop_le

/-- A generation that has grown to the end of its reservation has committed all of it. -/
theorem Raised.committedPart_of_stop (hr : Raised g g') (h : InLine g old)
    (hs : g'.objects.stop = g.reserved.stop) : g'.backing.committedPart = .ok g.reserved := by
  obtain ⟨region, hin⟩ := hr.changes.inLine h
  have hstart : region.start = g.reserved.start := hr.reserved_eq ▸ hin.start_eq
  have heq : region = g.reserved := Region.eq_of_bounds hstart (hin.end_eq.symm.trans hs)
  rw [← heq]
  exact hin.committedPart

/-- Where no commit is refused, everything that is left can be committed at once. -/
theorem InLine.exists_growFully (h : InLine g old) (hg : g.setup.CanGrow)
    (hgr : ∀ n m b, g.setup.grants n m b = true) :
    ∃ granted g', growFully g.guard g = .ok granted g' ∧ Raised g g' ∧
      g'.objects.stop = g.reserved.stop := by
  obtain ⟨granted, g', hrun, ha⟩ := ((growFully_ends h).mono (fun _ _ ha => ha) fun _ _ he =>
    he.not_canGrow hg).exists_ok
  refine ⟨granted, g', hrun, ha.raised, ?_⟩
  cases ha with
  | granted hgrown hs =>
    have := h.end_eq
    have := h.stop_le
    rw [hgrown.objects_eq]
    dsimp only
    omega
  | refused ha hr =>
    rw [ha.objects_eq]
    exact h.nothing_left hr hgr

section Room

variable (h : InLine g old) (hg : g.setup.CanGrow) (hw : minWords ≤ words)
  (hgr : ∀ n m b, g.setup.grants n m b = true)
include h hg hw

/-- An allocation either hands out a block or commits the whole reservation. -/
theorem exists_allocates : ∃ r g', allocate words g = .ok r g' ∧ Allocates g words r g' :=
  ((allocate_ends hw h).mono (fun _ _ ha => ha) fun _ _ he => he.not_canGrow hg).exists_ok

/-- Growth and one try after it. -/
theorem exists_growAndHandOut : ∃ r g' granted g₁, growAndHandOut words g = .ok r g' ∧
    Grows g (Word.mulSat words wordSize) granted g₁ ∧ HandsOut g₁ words r g' := by
  have hends : Ends (growAndHandOut words) g (fun r g' => ∃ granted g₁,
      Grows g (Word.mulSat words wordSize) granted g₁ ∧ HandsOut g₁ words r g')
      fun _ _ => False := by
    refine (growAndHandOut_ends h).mono (fun _ _ ha => ha) fun _ _ he => ?_
    rcases he.2 with hn | hlt
    · exact hn hg
    · omega
  obtain ⟨r, g', hr, granted, g₁, hgrow, hout⟩ := hends.exists_ok
  exact ⟨r, g', granted, g₁, hr, hgrow, hout⟩

include hgr

/-- A block that there is room for in the reservation is handed out. -/
theorem allocate_of_le (hroom : g.objects.top + words * wordSize ≤ g.reserved.stop) :
    ∃ g', allocate words g = .ok (.ok g.objects.top) g' ∧
      g'.objects.top = g.objects.top + words * wordSize := by
  obtain ⟨r, g', hr, ha⟩ := exists_allocates h hg hw
  cases ha with
  | ok hraised hout =>
    exact ⟨g', hr, hraised.top_eq ▸ hout.top_of_ne_none nofun⟩
  | full hraised hs hfull =>
    have hstop := hfull hgr
    rw [hraised.reserved_eq] at hstop
    rw [hraised.top_eq, hstop] at hs
    omega

/-- For a block that there is no room for, everything is committed in vain. -/
theorem allocate_of_lt (hroom : g.reserved.stop < g.objects.top + words * wordSize) :
    ∃ g', allocate words g = .ok (.error (.outOfMemory (Word.mulSat words wordSize)
        (g.reserved.stop - g.objects.top))) g' ∧
      g'.objects.top = g.objects.top ∧ g'.backing.committedPart = .ok g.reserved := by
  obtain ⟨r, g', hr, ha⟩ := exists_allocates h hg hw
  cases ha with
  | @ok g₁ _ hraised hout =>
    have hle := hraised.stop_le_reserved h
    have hnone := (hout.of_lt (by rw [hraised.top_eq]; omega)).1
    cases hnone
  | full hraised hs hfull =>
    have hstop := (hfull hgr).trans (by rw [hraised.reserved_eq])
    refine ⟨g', ?_, hraised.top_eq, hraised.committedPart_of_stop h hstop⟩
    rw [hr, outOfMemory, free, LinearSpace.free, hraised.top_eq, hstop]

/-- Growing before the try makes no difference to whether a block is handed out. -/
theorem growAndHandOut_of_le (hroom : g.objects.top + words * wordSize ≤ g.reserved.stop) :
    ∃ g', growAndHandOut words g = .ok (some g.objects.top) g' ∧
      g'.objects.top = g.objects.top + words * wordSize := by
  obtain ⟨r, g', granted, g₁, hr, hgrow, hout⟩ := exists_growAndHandOut h hg hw
  have hpos : 0 < words * wordSize := Nat.mul_pos (Nat.lt_of_lt_of_le (by decide) hw) (by decide)
  have hlt : words * wordSize < Word.limit := by
    have : g.reserved.stop < Word.limit := h.sound.stop_lt
    omega
  have hm := Word.mulSat_of_lt hlt
  rw [hm] at hgrow
  have htop := hgrow.raised.top_eq
  have hreach := hgrow.reaches hgr hpos hlt
  have hle : g.objects.top ≤ g.objects.stop := h.end_eq ▸ h.top_le
  obtain ⟨rfl, htop'⟩ := hout.of_le (by rw [htop]; omega)
  exact ⟨g', htop ▸ hr, htop ▸ htop'⟩

omit hgr in
theorem growAndHandOut_of_lt (hroom : g.reserved.stop < g.objects.top + words * wordSize) :
    ∃ g', growAndHandOut words g = .ok none g' ∧ g'.objects.top = g.objects.top := by
  obtain ⟨r, g', granted, g₁, hr, hgrow, hout⟩ := exists_growAndHandOut h hg hw
  have hle := hgrow.raised.stop_le_reserved h
  obtain ⟨rfl, rfl⟩ := hout.of_lt (by rw [hgrow.raised.top_eq]; omega)
  exact ⟨g', hr, hgrow.raised.top_eq⟩

end Room

/-! ## After a run -/

section New

variable {sys : AddressSpace} {s : Setting} {c : Config} {name : String} {level id : Nat}
  (hc : (create sys s c name level id).outcome = .result g₀)
  (hk : c.touchCommitted = true → sys.InLowerHalf)
  (hn : c.perNode = true → c.alignment * c.nodeCount s.machine < Word.limit)
include hc hk hn

/-- A new generation can grow wherever its reservation lies. -/
theorem create_canGrow : g₀.setup.CanGrow := by
  obtain ⟨base, heap, committed, _, hbase, h₁, h₂, hf, hasm⟩ := create_assembled hc
  obtain ⟨-, -, -, -, -, -, -, hplace, hle, -⟩ := Reservation.reserve_result hbase
  refine hasm.canGrow hf (fun ht => ?_) hn
  have hhalf := hk ht _ _ hplace
  omega

/-- After every run from a new generation, a block is handed out if and only if there is room for it
in the reservation above the top, whatever is committed and by which steps the generation grows. If
there is no room, an allocation commits the whole reservation and says what it lacked. Where a
mapping lies matters only to a generation that touches what it commits: addresses are counted on
past the end of what is touched. Everything that is touched on the way can be, unless large pages
are smaller than four bytes. -/
theorem Run.allocates_iff_room (hr : Run g₀ ops out g) (hw : minWords ≤ words) :
    (words * wordSize ≤ g.reserved.stop - g.objects.top →
      (∃ g', allocate words g = .ok (.ok g.objects.top) g' ∧
        g'.objects.top = g.objects.top + words * wordSize) ∧
      ∃ g', growAndHandOut words g = .ok (some g.objects.top) g' ∧
        g'.objects.top = g.objects.top + words * wordSize) ∧
    (g.reserved.stop - g.objects.top < words * wordSize →
      (∃ g', allocate words g = .ok (.error (.outOfMemory (min (words * wordSize) Word.max)
          (g.reserved.stop - g.objects.top))) g' ∧
        g'.objects.top = g.objects.top ∧ g'.backing.committedPart = .ok g.reserved) ∧
      ∃ g', growAndHandOut words g = .ok none g' ∧ g'.objects.top = g.objects.top) ∧
    ((c.largePages = true → 4 ≤ c.largePageSize) →
      (∀ r g', allocate words g = .ok r g' → TouchesIn g.reserved s.host.memory g'.memory) ∧
      ∀ r g', growAndHandOut words g = .ok r g' →
        TouchesIn g.reserved s.host.memory g'.memory) := by
  obtain ⟨region₀, hnew⟩ := create_new hc
  obtain ⟨region, hin⟩ := hr.inLine hnew.toInLine
  have hs := hr.setup_eq hnew.toInLine
  have ho : g.setup.Own := hs ▸ hnew.own
  have hg : g.setup.CanGrow := hs ▸ create_canGrow hc hk hn
  have hle : g.objects.top ≤ g.reserved.stop := Nat.le_trans hin.top_le hin.stop_le
  refine ⟨fun hroom => ?_, fun hroom => ?_, fun hl => ⟨fun _ _ => ?_, fun _ _ => ?_⟩⟩
  · have hroom : g.objects.top + words * wordSize ≤ g.reserved.stop := by omega
    exact ⟨allocate_of_le hin hg hw ho.grants_eq hroom,
      growAndHandOut_of_le hin hg hw ho.grants_eq hroom⟩
  · have hroom : g.reserved.stop < g.objects.top + words * wordSize := by omega
    exact ⟨allocate_of_lt hin hg hw ho.grants_eq hroom, growAndHandOut_of_lt hin hg hw hroom⟩
  · exact hr.touchesIn_of_goes hc hl goes_allocate
  · exact hr.touchesIn_of_goes hc hl goes_growAndHandOut

end New

/-- A generation of two pages, of which one is committed, that touches what it commits. -/
theorem Run.allocates_iff_room_small : ∃ g₀,
    (create (.ofBase 65536) ⟨⟨0, 1, 1⟩, {}, {}⟩
      { smallConfig with touchCommitted := true, perNode := true } "small" 1 0).outcome =
      .result g₀ ∧
    (∃ g, allocate 1024 g₀ = .ok (.ok 65536) g ∧ g.objects.top = 73728 ∧
      TouchesIn g₀.reserved {} g.memory) ∧
    ∃ g, allocate 1025 g₀ = .ok (.error (.outOfMemory 8200 8192)) g := by
  have hnew : ∃ g₀, (create (.ofBase 65536) ⟨⟨0, 1, 1⟩, {}, {}⟩
      { smallConfig with touchCommitted := true, perNode := true } "small" 1 0).outcome =
      .result g₀ ∧ g₀.objects.top = 65536 ∧ g₀.reserved.stop = 73728 := ⟨_, rfl, rfl, rfl⟩
  obtain ⟨g₀, hc, htop, hstop⟩ := hnew
  have hroom := fun words (hw : minWords ≤ words) => Run.allocates_iff_room hc
    (fun _ => AddressSpace.inLowerHalf_ofBase (by decide)) (fun _ => by decide) .start hw
  refine ⟨g₀, hc, ?_, ?_⟩
  · obtain ⟨hle, -, htouches⟩ := hroom 1024 (by decide)
    obtain ⟨g, hg, htop'⟩ := (hle (by rw [htop, hstop]; decide)).1
    rw [htop] at hg htop'
    exact ⟨g, hg, htop', (htouches nofun).1 _ _ hg⟩
  · obtain ⟨g, hg, -⟩ := ((hroom 1025 (by decide)).2.1 (by rw [htop, hstop]; decide)).1
    rw [htop, hstop] at hg
    exact ⟨g, hg⟩

end Generation

end Tenured
