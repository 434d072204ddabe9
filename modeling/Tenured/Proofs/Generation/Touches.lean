import Tenured.Proofs.Generation.Interleaving
import Tenured.Proofs.LinearSpace.Provided

/-!
# Where memory is touched

To touch an address is to access the four bytes from it on, so it has to be a multiple of four and
all four bytes have to lie in committed memory (`Touchable`). Memory is touched when a generation is
built, when it grows, and when blocks are handed out. What is touched are multiples of the stride,
or the address at the cursor, which is at such a multiple or at an end of the linear space; and all
of it lies below the end of what is committed. So every address is touchable as long as the stride
is a multiple of four:

* `Underway.apply_touches`, `HandsOut.touches`, `TouchedAhead.touches`: one step of growth, or one
  block.
* `Interleaved.touchesIn`, `Run.touchesIn`: all steps, and all operations of a run. What was touched
  in any of them can be touched in the reservation.
* `Interleaved.touchable`: every step from a new generation on, in whatever order.

A stride of one or two, which large pages may have, is too short (`Run.touches_misaligned`).
-/

namespace Tenured

/-! ## Touching leaves a record, and nothing else does -/

namespace Memory

variable (m : Memory)

theorem touched_store (addr w : Nat) : (m.store addr w).touched = m.touched := by
  simp only [store]
  split <;> rfl

theorem touched_release (p n : Nat) : (m.release p n).touched = m.touched := by
  induction n generalizing m p with
  | zero => rfl
  | succ n ih => exact ih _ (p + 1)

end Memory

theorem Mapping.touched_giveBack {mp : Mapping} {addr len : Nat} {m m' : Memory}
    (h : mp.giveBack addr len m = .ok m') : m'.touched = m.touched := by
  unfold giveBack at h
  split at h
  · cases h; rfl
  · split at h
    · cases h
    · split at h <;> cases h
      exact m.touched_release _ _

theorem Reservation.touched_giveBack (r : Reservation) (bytes : Nat) (h : Host) :
    (r.giveBack bytes h).memory.touched = h.memory.touched := by
  simp only [giveBack]
  split
  · rename_i m hm
    exact Mapping.touched_giveBack hm
  · rfl

namespace Generation

open Tenured.Action
open Object (wordSize)

variable {g g' g₀ : Generation} {old region : Region} {words : Nat} {out : List Object}
  {us : List Update} {u : Update}

/-- An address can be touched: it is a multiple of four, and the four bytes from it on lie in the
region. -/
structure Touchable (region : Region) (addr : Nat) : Prop where
  dvd : 4 ∣ addr
  start_le : region.start ≤ addr
  le_stop : addr + 4 ≤ region.stop

/-- A multiple of four below the end of a page has its four bytes below it. -/
theorem Touchable.of_lt {addr : Nat} (hd : 4 ∣ addr) (hs : region.start ≤ addr)
    (hlt : addr < region.stop) (he : 4 ∣ region.stop) : Touchable region addr :=
  ⟨hd, hs, Rounding.add_le_of_dvd_of_lt hd he hlt⟩

/-- What can be touched in a part of a region can be touched in the region. -/
theorem Touchable.mono {r : Region} {addr : Nat} (h : Touchable r addr)
    (hs : region.start ≤ r.start) (he : r.stop ≤ region.stop) : Touchable region addr :=
  ⟨h.dvd, Nat.le_trans hs h.start_le, Nat.le_trans h.le_stop he⟩

/-- Whatever was touched between two states of a memory can be touched in the region. -/
def TouchesIn (region : Region) (m m' : Memory) : Prop :=
  ∃ addrs : List Nat, m'.touched = m.touched ++ addrs ∧ ∀ a ∈ addrs, Touchable region a

namespace TouchesIn

variable {m m' m'' : Memory}

theorem of_eq (h : m'.touched = m.touched) : TouchesIn region m m' :=
  ⟨[], by simp [h], nofun⟩

theorem trans (h : TouchesIn region m m') (h' : TouchesIn region m' m'') :
    TouchesIn region m m'' := by
  obtain ⟨addrs, hm, ha⟩ := h
  obtain ⟨addrs', hm', ha'⟩ := h'
  refine ⟨addrs ++ addrs', hm'.trans (hm ▸ Array.ext' (by simp)), fun a hmem => ?_⟩
  exact (List.mem_append.1 hmem).elim (ha a) (ha' a)

end TouchesIn

/-- Whatever was touched meanwhile could be touched in the part that was committed before. -/
def TouchesWithin (g g' : Generation) : Prop :=
  ∃ (region : Region) (addrs : List Nat), g.backing.committedPart = .ok region ∧
    g'.memory.touched = g.memory.touched ++ addrs ∧ ∀ a ∈ addrs, Touchable region a

theorem Committed.touchesWithin_of_eq (h : Committed g region)
    (hm : g'.memory.touched = g.memory.touched) : TouchesWithin g g' :=
  ⟨region, [], h.committedPart, by simp [hm], nofun⟩

/-- The committed part lies in the reservation. -/
theorem Committed.touchesIn (h : Committed g region) (ht : TouchesWithin g g') :
    TouchesIn g.reserved g.memory g'.memory := by
  obtain ⟨_, addrs, hr, hm, ha⟩ := ht
  obtain rfl := Except.ok.inj (hr.symm.trans h.committedPart)
  exact ⟨addrs, hm, fun a hmem => (ha a hmem).mono (Nat.le_of_eq h.start_eq.symm) h.stop_le⟩

/-! ## One step -/

/-- The cursor and its stride are multiples of four. -/
structure Aligned (g : Generation) : Prop where
  dvd_stride : 4 ∣ g.cursor.stride
  dvd_next : 4 ∣ g.cursor.next

theorem Aligned.of_next (h : Aligned g) (hs : g'.setup = g.setup) (hn : 4 ∣ g'.cursor.next) :
    Aligned g' :=
  ⟨(show g'.cursor.stride = g.cursor.stride from congrArg Setup.stride hs) ▸ h.dvd_stride, hn⟩

theorem Committed.four_dvd_stop (h : Committed g region) : 4 ∣ region.stop :=
  Nat.dvd_trans (by decide) h.page_dvd_stop

/-- An update touches new memory in the committed part, or nothing. -/
theorem Underway.apply_touches (h : Underway g region (u :: us)) (hd : Aligned g) :
    Ends u.apply g (fun _ g' => TouchesWithin g g' ∧ Aligned g') fun _ _ => True := by
  have hstay : ∀ {g' : Generation}, g'.memory.touched = g.memory.touched → TouchesWithin g g' :=
    h.toCommitted.touchesWithin_of_eq
  have hstop := h.four_dvd_stop
  cases u with
  | mangle fresh =>
    refine ends_bind.2 (ends_get.2 (ends_lift_bind fun _ _ => ends_lift_bind fun m hm => ?_))
    obtain ⟨_, -, hm⟩ := bind_eq_ok_iff.1 hm
    cases hm
    exact ends_set.2 ⟨hstay (Memory.touched_fill ..), hd.1, hd.2⟩
  | coverCards r =>
    refine ends_bind.2 (ends_modify.2 (ends_bind.2 (ends_get.2 (ends_lift_bind fun _ _ => ?_))))
    exact ends_set.2 ⟨hstay rfl, hd.1, hd.2⟩
  | coverCrossings r =>
    refine ends_bind.2 (ends_modify.2 (ends_bind.2 (ends_get.2 (ends_lift_bind fun _ _ => ?_))))
    exact ends_set.2 ⟨hstay rfl, hd.1, hd.2⟩
  | touchNew r =>
    obtain ⟨rfl, -⟩ := h.inOrder.1
    refine ends_touchNew.2 ⟨fun addrs ha => ⟨?_, hd.1, hd.2⟩, fun _ _ => trivial⟩
    refine ⟨r, addrs, h.committedPart, rfl, fun a hmem => ?_⟩
    obtain ⟨hdvd, ⟨hlow, hlt⟩, -⟩ :=
      (LinearSpace.mem_newTouches h.sound.isPowerOfTwo_stride ha).1 hmem
    exact .of_lt (Nat.dvd_trans hd.dvd_stride hdvd) hlow hlt hstop
  | setBottom r =>
    refine ends_bind.2 (ends_get.2 (ends_lift_bind fun _ _ => ?_))
    exact ends_set.2 ⟨hstay rfl, hd.1, hd.2⟩
  | setStop stop => exact ends_modify.2 ⟨hstay rfl, hd.1, hd.2⟩
  | advanceCursor stop =>
    obtain ⟨rfl, -⟩ := h.inOrder.1
    refine ends_modify.2 ⟨hstay rfl, hd.1, ?_⟩
    show 4 ∣ max g.cursor.next region.stop
    exact max_rec' (4 ∣ ·) hd.dvd_next hstop
  | retreatCursor stop =>
    obtain ⟨rfl, -⟩ := h.inOrder.1
    refine ends_modify.2 ⟨hstay rfl, hd.1, ?_⟩
    show 4 ∣ min g.cursor.next region.stop
    exact min_rec' (4 ∣ ·) hd.dvd_next hstop

/-- What is touched ahead of an allocation lies between the cursor and the end. -/
theorem TouchedAhead.touches {addr size : Nat} (ht : TouchedAhead g addr size g')
    (h : Underway g region us) (hd : Aligned g) : TouchesWithin g g' ∧ Aligned g' := by
  have hw := h.within
  have hp : g.cursor.stride.isPowerOfTwo := h.sound.isPowerOfTwo_stride
  have hstop : 4 ∣ g.objects.stop := Nat.dvd_trans (by decide) hw.page_dvd_stop
  have hstart := h.start_eq_bottom
  have hlow := hw.bottom_le_cursor
  have hend := h.end_le
  obtain ⟨touched, hf, hm⟩ := ht.follow_eq
  obtain ⟨hnext, hdvd⟩ := TouchCursor.dvd_of_follow hf hp hd.dvd_stride hd.dvd_next hstop
  have hfollows := TouchCursor.Follows.of_follow hp hw.stop_lt hw.cursor_le hf
  refine ⟨⟨region, touched.toList, h.committedPart, by rw [hm]; rfl, fun a ha => ?_⟩,
    hd.of_next ht.setup_eq hnext⟩
  have ha := Option.mem_toList.1 ha
  obtain ⟨hle, hlt⟩ := hfollows.touched_bounds a ha
  exact .of_lt (hdvd a ha) (by omega) (Nat.lt_of_lt_of_le hlt hend) h.four_dvd_stop

theorem HandsOut.touches {r : Option Nat} (ho : HandsOut g words r g') (h : Underway g region us)
    (hd : Aligned g) : TouchesWithin g g' ∧ Aligned g' := by
  cases ho with
  | none _ => exact ⟨h.toCommitted.touchesWithin_of_eq rfl, hd⟩
  | @some mid _ hc ht =>
    have hmid : Underway mid region us := hc.stays.underway h (hc.within h.within)
    have hnext : 4 ∣ mid.cursor.next := by
      rw [hc.cursor_eq]
      exact hd.dvd_next
    obtain ⟨⟨region', addrs, hr, hm, ha⟩, hd'⟩ :=
      ht.touches hmid (hd.of_next hc.setup_eq hnext)
    obtain rfl := Except.ok.inj (hr.symm.trans hmid.committedPart)
    rw [hc.memory_eq, Memory.touched_store] at hm
    exact ⟨⟨_, addrs, h.committedPart, hm, ha⟩, hd'⟩

/-- Giving memory back touches nothing. -/
theorem GivesBack.touches {bytes : Nat} (hb : GivesBack g bytes g') (h : InLine g old)
    (hd : Aligned g) : g'.memory.touched = g.memory.touched ∧ Aligned g' := by
  cases hb with
  | nothing _ => exact ⟨rfl, hd⟩
  | @shrunk region _ hs _ =>
    refine ⟨?_, hd.of_next hs.setup_eq ?_⟩
    · rw [hs.memory_eq]
      exact Reservation.touched_giveBack ..
    · rw [hs.cursor_eq]
      show 4 ∣ min g.cursor.next region.stop
      exact min_rec' (4 ∣ ·) hd.dvd_next (hs.inLine h).four_dvd_stop

/-! ## All steps -/

/-- At every point the cursor and its stride are multiples of four, and what was touched up to it
can be touched in the reservation. -/
theorem Interleaved.touches (hi : Interleaved g₀ us out g) (h₀ : InLine g₀ old)
    (ht₀ : Tiled g₀ []) (hd₀ : Aligned g₀) :
    Aligned g ∧ TouchesIn g₀.reserved g₀.memory g.memory := by
  -- What is touched in one step can be touched in the committed part.
  have hstep : ∀ {us out g region g'}, Interleaved g₀ us out g → Underway g region us →
      TouchesIn g₀.reserved g₀.memory g.memory → TouchesWithin g g' →
      TouchesIn g₀.reserved g₀.memory g'.memory := fun hi h hm ht => by
    obtain ⟨_, -, -, hs⟩ := hi.holds h₀ ht₀
    exact hm.trans (reserved_eq_of_setup hs ▸ h.toCommitted.touchesIn ht)
  induction hi with
  | start => exact ⟨hd₀, .of_eq rfl⟩
  | commit _ _ _ ih => exact ⟨⟨ih.1.1, ih.1.2⟩, ih.2⟩
  | update hi hu ih =>
    obtain ⟨region, h, -⟩ := hi.holds h₀ ht₀
    obtain ⟨ht, hd⟩ := (h.apply_touches ih.1).of_ok hu
    exact ⟨hd, hstep hi h ih.2 ht⟩
  | release hi hb ih =>
    obtain ⟨region, h, -⟩ := hi.holds h₀ ht₀
    obtain ⟨hm, hd⟩ := ((giveBack_ends h.inLine).of_ok hb).touches h.inLine ih.1
    exact ⟨hd, ih.2.trans (.of_eq hm)⟩
  | handOut hi hr ih =>
    obtain ⟨region, h, -⟩ := hi.holds h₀ ht₀
    obtain ⟨ht, hd⟩ := ((handOut_ends h.within).of_ok hr).touches h ih.1
    exact ⟨hd, hstep hi h ih.2 ht⟩
  | touchAhead hi hr ih =>
    obtain ⟨region, h, -⟩ := hi.holds h₀ ht₀
    obtain ⟨ht, hd⟩ := ((touchAhead_ends h.within).of_ok hr).touches h ih.1
    exact ⟨hd, hstep hi h ih.2 ht⟩
  | store _ _ _ _ w ih =>
    exact ⟨⟨ih.1.1, ih.1.2⟩, ih.2.trans (.of_eq (Memory.touched_store ..))⟩
  | books _ ha ih =>
    exact ⟨ih.1.of_next ha.setup_eq (by rw [ha.cursor_eq]; exact ih.1.dvd_next),
      ih.2.trans (.of_eq (by rw [ha.memory_eq]))⟩

section New

variable {sys : AddressSpace} {s : Setting} {c : Config} {name : String} {level id : Nat}
  (hc : (create sys s c name level id).outcome = .result g₀)
  (hl : c.largePages = true → 4 ≤ c.largePageSize)
include hc hl

/-- A new generation has touched what it committed, or nothing. -/
theorem create_touches : Aligned g₀ ∧ ∃ (region : Region) (addrs : List Nat),
    g₀.backing.committedPart = .ok region ∧ g₀.memory.touched = s.host.memory.touched ++ addrs ∧
    ∀ a ∈ addrs, Touchable region a := by
  obtain ⟨base, heap, committed, j, -, -, -, hf, hasm⟩ := create_assembled hc
  have hin := hasm.inLine hf
  have hp := hasm.usable.isPowerOfTwo_touchStride
  have hstop : 4 ∣ committed.stop := hin.four_dvd_stop
  have hstart : 4 ∣ committed.start := Nat.dvd_trans (by decide) hin.page_dvd_start
  obtain ⟨-, -, hnext, hstride⟩ := TouchCursor.ofStart_eq_ok hasm.cursor_eq
  have hd : 4 ∣ c.touchStride := by
    refine Rounding.dvd_of_le ⟨2, rfl⟩ hp ?_
    unfold Config.touchStride
    split
    · exact hl ‹_›
    · decide
  refine ⟨⟨hstride.symm ▸ hd, ?_⟩, ?_⟩
  · rw [hnext]
    split
    · exact hstop
    · exact hstart
  · have hset := hasm.setUp_eq
    split at hset
    · obtain ⟨addrs, hnew, hm⟩ := LinearSpace.exists_newTouches_of_setUp hset
      refine ⟨committed, addrs, hasm.committed_eq, hm, fun a hmem => ?_⟩
      obtain ⟨hdvd, ⟨hlow, hlt⟩, -⟩ := (LinearSpace.mem_newTouches hp hnew).1 hmem
      exact .of_lt (Nat.dvd_trans hd hdvd) hlow hlt hstop
    · have hm : _ = s.host.memory.touched := LinearSpace.touched_of_setUp hset
      exact ⟨committed, [], hasm.committed_eq, by simp [hm], nofun⟩

/-- Whatever was touched in building a generation, and since then, can be touched in its
reservation. -/
theorem Interleaved.touchesIn (hi : Interleaved g₀ us out g) :
    TouchesIn g₀.reserved s.host.memory g.memory := by
  obtain ⟨region₀, hnew⟩ := create_new hc
  obtain ⟨hd₀, region, addrs, hregion, hm, ha⟩ := create_touches hc hl
  obtain rfl := Except.ok.inj (hregion.symm.trans hnew.committedPart)
  have hbuilt : TouchesIn g₀.reserved s.host.memory g₀.memory :=
    ⟨addrs, hm, fun a hmem => (ha a hmem).mono (Nat.le_of_eq hnew.start_eq.symm) hnew.stop_le⟩
  exact hbuilt.trans (hi.touches hnew.toInLine hnew.tiled hd₀).2

section Run

variable {ops : List Operation} (hr : Run g₀ ops out g)
include hr

theorem Run.touchesIn : TouchesIn g.reserved s.host.memory g.memory := by
  obtain ⟨_, hnew⟩ := create_new hc
  rw [reserved_eq_of_setup (hr.setup_eq hnew.toInLine)]
  exact hr.interleaved.touchesIn hc hl

/-- The same after one more action, if it is made of steps. -/
theorem Run.touchesIn_of_goes {α : Type} {x : Action α} {f : α → List Object} {a : α}
    (hx : Goes x g f) (h : x g = .ok a g') : TouchesIn g.reserved s.host.memory g'.memory := by
  obtain ⟨_, hnew⟩ := create_new hc
  rw [reserved_eq_of_setup (hr.setup_eq hnew.toInLine)]
  exact ((hx.of_ok h) _ _ hr.interleaved).touchesIn hc hl

end Run

/-- Large pages of at least four bytes given, every address that is ever touched can be: those
touched when the generation is built, and those touched by the next step at every point after that,
be it an update, a block handed out or a request to touch memory ahead. Every operation consists of
such steps, and a release touches nothing. -/
theorem Interleaved.touchable (hi : Interleaved g₀ us out g) :
    (∃ (region : Region) (addrs : List Nat), g₀.backing.committedPart = .ok region ∧
      g₀.memory.touched = s.host.memory.touched ++ addrs ∧ ∀ a ∈ addrs, Touchable region a) ∧
    (us = [] → ∀ (op : Operation) out' g', op.run g = .ok out' g' →
      Interleaved g₀ [] (out ++ out') g') ∧
    (∀ u us' g', us = u :: us' → u.apply g = .ok () g' → TouchesWithin g g') ∧
    (∀ words r g', Generation.handOut words g = .ok r g' → TouchesWithin g g') ∧
    (∀ addr words g', Generation.touchAhead addr words g = .ok () g' → TouchesWithin g g') ∧
    ∀ bytes g', us = [] → giveBack g.guard bytes g = .ok () g' →
      g'.memory.touched = g.memory.touched := by
  obtain ⟨region₀, hnew⟩ := create_new hc
  obtain ⟨hd₀, htouched⟩ := create_touches hc hl
  obtain ⟨region, h, -⟩ := hi.holds hnew.toInLine hnew.tiled
  have hd := (hi.touches hnew.toInLine hnew.tiled hd₀).1
  refine ⟨htouched, ?_, ?_, fun words r g' hr => ?_, fun addr words g' hr => ?_, ?_⟩
  · rintro rfl op out' g' hop
    exact (op.goes.of_ok hop) _ _ hi
  · rintro u us' g' rfl hu
    exact ((h.apply_touches hd).of_ok hu).1
  · exact (((handOut_ends h.within).of_ok hr).touches h hd).1
  · exact (((touchAhead_ends h.within).of_ok hr).touches h hd).1
  · rintro bytes g' rfl hb
    exact (((giveBack_ends h.inLine).of_ok hb).touches h.inLine hd).1

end New

/-- Large pages of the usual size, which are touched as they are committed. -/
theorem Interleaved.touchable_small : ∃ (g₀ : Generation) (region : Region) (addrs : List Nat),
    (create (.ofBase 65536) ⟨⟨0, 1, 1⟩, {}, {}⟩
      { smallConfig with largePages := true, largePageSize := 4096, touchCommitted := true }
      "small" 1 0).outcome = .result g₀ ∧
    g₀.backing.committedPart = .ok region ∧ g₀.memory.touched = (#[] : Array Nat) ++ addrs ∧
    ∀ a ∈ addrs, Touchable region a := by
  have hrun : ∃ g₀, (create (.ofBase 65536) ⟨⟨0, 1, 1⟩, {}, {}⟩
      { smallConfig with largePages := true, largePageSize := 4096, touchCommitted := true }
      "small" 1 0).outcome = .result g₀ := ⟨_, rfl⟩
  obtain ⟨g₀, hc⟩ := hrun
  obtain ⟨⟨region, addrs, hr, hm, ha⟩, -⟩ := Interleaved.touchable hc (fun _ => by decide) .start
  exact ⟨g₀, region, addrs, hc, hr, hm, ha⟩

/-- The smallest configuration with large pages of two bytes. -/
def narrowConfig : Config :=
  { smallConfig with largePages := true, largePageSize := 2 }

/-- The configuration can be used, and at the last stride of the committed part an address is
touched that is no multiple of four, and of whose four bytes the last two are not committed. -/
theorem Run.touches_misaligned : narrowConfig.validate = .ok () ∧ ∃ g₀ g,
    (create (.ofBase 65536) ⟨⟨0, 1, 1⟩, {}, {}⟩ narrowConfig "narrow" 1 0).outcome = .result g₀ ∧
    Run g₀ [.touchAhead 69630 0] [] g ∧ g.memory.touched = #[69630] ∧
    g.backing.committedPart = .ok ⟨65536, 69632, by decide⟩ ∧ ¬ 4 ∣ 69630 ∧ 69632 < 69630 + 4 := by
  have hrun : ∃ g₀, (create (.ofBase 65536) ⟨⟨0, 1, 1⟩, {}, {}⟩ narrowConfig "narrow" 1 0).outcome =
      .result g₀ ∧ ∃ g, (Operation.touchAhead 69630 0).run g₀ = .ok [] g ∧
        g.memory.touched = #[69630] ∧
        g.backing.committedPart = .ok ⟨65536, 69632, by decide⟩ := ⟨_, rfl, _, rfl, rfl, rfl⟩
  obtain ⟨g₀, hc, g, hr, ht, hb⟩ := hrun
  exact ⟨rfl, g₀, g, hc, .call .start hr, ht, hb, by decide, by decide⟩

end Generation

end Tenured
