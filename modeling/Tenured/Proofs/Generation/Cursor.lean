import Tenured.Proofs.Generation.Calls

/-!
# How far the touch cursor leads

The cursor says up to where memory has been touched. Allocation and growth move it up only
(`Calls.advances`): past every block that is smaller than a stride, and, unless memory is touched as
it is committed, no further above the top than its limit and one stride (`Led`). A release takes it
down to the new end, if it was above. Where memory is touched as it is committed, the cursor is at
the end all the time (`Calls.atEnd`).

* `Operation.moves`: what an operation does to the cursor.
* `Run.cursor_leads`: where the cursor is after every run.
-/

namespace Tenured

theorem TouchCursor.limit_of_ofStart {start stride workers : Nat} {c : TouchCursor}
    (h : TouchCursor.ofStart start stride workers = .ok c) : c.limit = stride * max workers 1 := by
  obtain ⟨_, -, h⟩ := bind_eq_ok_iff.1 h
  obtain ⟨_, hl, h⟩ := bind_eq_ok_iff.1 h
  cases h
  exact (Word.mul_eq_ok_iff.1 hl).2

namespace Generation

open Tenured.Action
open Object (wordSize)

variable {g g' g'' g₀ : Generation} {old region : Region} {words : Nat} {out out' : List Object}
  {ops : List Operation} {c : Call} {cs : List Call}

/-- The cursor leads the top by no more than its limit and one stride. -/
def Led (g : Generation) : Prop :=
  g.cursor.next ≤ g.objects.top + g.cursor.limit + g.cursor.stride

/-! ## Moves up -/

/-- Neither the end nor the cursor moved down, and the cursor has passed all small blocks that were
handed out. It leads no further than it may, unless memory is touched as it is committed. -/
structure Advances (g : Generation) (out : List Object) (g' : Generation) : Prop where
  stop_le : g.objects.stop ≤ g'.objects.stop
  next_le : g.cursor.next ≤ g'.cursor.next
  passed : ∀ o ∈ out, o.size < g.cursor.stride → o.addr + o.size ≤ g'.cursor.next
  led : g.config.touchCommitted = false → Led g → Led g'

theorem Advances.refl (g : Generation) : Advances g [] g :=
  ⟨Nat.le_refl _, Nat.le_refl _, nofun, fun _ h => h⟩

theorem Advances.trans (h : Advances g out g') (h' : Advances g' out' g'')
    (hs : g'.setup = g.setup) : Advances g (out ++ out') g'' where
  stop_le := Nat.le_trans h.stop_le h'.stop_le
  next_le := Nat.le_trans h.next_le h'.next_le
  passed o ho hsize := by
    have hstride : g'.cursor.stride = g.cursor.stride := congrArg Setup.stride hs
    rcases List.mem_append.1 ho with ho | ho
    · exact Nat.le_trans (h.passed o ho hsize) h'.next_le
    · exact h'.passed o ho (hstride ▸ hsize)
  led ht hl := h'.led (config_eq_of_setup hs ▸ ht) (h.led ht hl)

theorem Alike.advances (ha : Alike g g') : Advances g [] g' := by
  have ho := ha.objects_eq
  have hc := ha.cursor_eq
  refine ⟨Nat.le_of_eq (by rw [ho]), Nat.le_of_eq (by rw [hc]), nofun, fun _ hl => ?_⟩
  rw [Led, ho, hc]
  exact hl

theorem Grown.advances (hg : Grown g region g') (h : Within g) : Advances g [] g' := by
  have hlt := hg.stop_lt
  have hle := h.cursor_le
  have hc := hg.cursor_eq
  refine ⟨?_, ?_, nofun, fun ht hl => ?_⟩
  · rw [hg.objects_eq]; exact Nat.le_of_lt hlt
  · rw [hc]
    split
    · exact Nat.le_max_left ..
    · exact Nat.le_min.2 ⟨Nat.le_refl _, by omega⟩
  · rw [ht, if_neg Bool.false_ne_true] at hc
    rw [Led, hg.objects_eq, hc]
    exact Nat.le_trans (Nat.min_le_left ..) hl

/-- The cursor follows the block that is handed out. -/
theorem HandsOut.advances {r : Option Nat} (ho : HandsOut g words r g') (h : Within g)
    (hl : g.cursor.stride ≤ g.cursor.limit) : Advances g (blockAt words r) g' := by
  have hp : g.cursor.stride.isPowerOfTwo := h.sound.isPowerOfTwo_stride
  cases ho with
  | none _ => exact .refl g
  | some hc ht =>
    obtain ⟨touched, hf, -⟩ := ht.follow_eq
    rw [hc.cursor_eq, hc.objects_eq] at hf
    have hfollows := TouchCursor.Follows.of_follow hp h.stop_lt h.cursor_le hf
    refine ⟨?_, hfollows.next_le, fun o hmem hsize => ?_, fun _ hled => ?_⟩
    · exact Nat.le_of_eq (by rw [ht.objects_eq, hc.objects_eq])
    · obtain rfl := List.mem_singleton.1 hmem
      exact TouchCursor.le_next_of_follow hf hp h.stop_lt hsize hc.le_stop
    · have hled : g.cursor.next ≤ g.objects.top + g.cursor.limit + g.cursor.stride := hled
      rw [Led, ht.objects_eq, hc.objects_eq, hfollows.stride_eq, hfollows.limit_eq]
      exact TouchCursor.next_le_of_follow hf hp hl (by omega)

theorem Effect.advances (he : Effect g c g') (hc : c.Raises) (h : InLine g old)
    (hl : g.cursor.stride ≤ g.cursor.limit) : Advances g c.blocks g' := by
  cases he with
  | alike ha hb => rw [hb]; exact ha.advances
  | grown hg hb => rw [hb]; exact hg.advances h.within
  | handedOut ho => exact ho.advances h.within hl
  | shrunk _ | touchedAhead _ | stored _ _ => exact hc.elim

/-- Calls that do not lower the end move the cursor up, one after another. -/
theorem Calls.advances (h : Calls g cs g') (hcs : ∀ c ∈ cs, c.Raises) (h₀ : InLine g old)
    (hl : g.cursor.stride ≤ g.cursor.limit) : Advances g (cs.flatMap Call.blocks) g' := by
  induction h with
  | start => exact .refl g
  | @tail cs c g₁ g₂ h hc ih =>
    have ih := ih fun c hc => hcs c (List.mem_append_left _ hc)
    obtain ⟨region, hin⟩ := h.inLine h₀
    have hs := h.setup_eq h₀
    have hl₁ : g₁.cursor.stride ≤ g₁.cursor.limit := by
      rwa [show g₁.cursor.stride = _ from congrArg Setup.stride hs,
        show g₁.cursor.limit = _ from congrArg Setup.lead hs]
    have hc₁ := (hc.effect hin).advances (hcs c (List.mem_append_right _ (.head _))) hin hl₁
    rw [List.flatMap_append, List.flatMap_singleton]
    exact ih.trans hc₁ hs

/-! ## At the end -/

/-- A cursor at the end stays there, if memory is touched as it is committed. -/
theorem Effect.atEnd (he : Effect g c g') (ht : g.config.touchCommitted = true)
    (hn : g.cursor.next = g.objects.stop) : g'.cursor.next = g'.objects.stop := by
  have hahead : ∀ {mid g' : Generation} {addr size : Nat}, mid.cursor.next = mid.objects.stop →
      TouchedAhead mid addr size g' → g'.cursor.next = g'.objects.stop := by
    intro mid g' addr size hn hta
    obtain ⟨touched, hf, -⟩ := hta.follow_eq
    rw [TouchCursor.follow_of_stop_le (Nat.le_of_eq hn.symm)] at hf
    rw [hta.objects_eq, ← hn, (Prod.mk.inj (Except.ok.inj hf)).1]
  cases he with
  | alike ha _ => rw [ha.cursor_eq, ha.objects_eq, hn]
  | grown hg _ =>
    rw [hg.cursor_eq, if_pos ht, hg.objects_eq]
    exact Nat.max_eq_right (hn ▸ Nat.le_of_lt hg.stop_lt)
  | shrunk hs =>
    rw [hs.cursor_eq, hs.objects_eq]
    exact Nat.min_eq_right (hn ▸ Nat.le_of_lt hs.lt_stop)
  | handedOut ho =>
    cases ho with
    | none _ => exact hn
    | some hc hta => exact hahead (by rw [hc.cursor_eq, hc.objects_eq, hn]) hta
  | touchedAhead hta => exact hahead hn hta
  | stored addr w => exact hn

theorem Calls.atEnd (h : Calls g cs g') (h₀ : InLine g old) (ht : g.config.touchCommitted = true)
    (hn : g.cursor.next = g.objects.stop) : g'.cursor.next = g'.objects.stop := by
  induction h with
  | start => exact hn
  | tail h hc ih =>
    obtain ⟨region, hin⟩ := h.inLine h₀
    exact (hc.effect hin).atEnd (config_eq_of_setup (h.setup_eq h₀) ▸ ht) ih

/-! ## One operation -/

/-- The cursor moves down only with the end, and passes the small blocks that are handed out. -/
structure Moves (g : Generation) (out : List Object) (g' : Generation) : Prop where
  next_le : g.objects.stop ≤ g'.objects.stop → g.cursor.next ≤ g'.cursor.next
  next_eq : g'.objects.stop < g.objects.stop → g'.cursor.next = min g.cursor.next g'.objects.stop
  passed : ∀ o ∈ out, o.size < g.cursor.stride → o.addr + o.size ≤ g'.cursor.next

theorem Advances.moves (h : Advances g out g') : Moves g out g' :=
  ⟨fun _ => h.next_le, fun hlt => absurd h.stop_le (Nat.not_le.2 hlt), h.passed⟩

theorem Shrunk.moves (hs : Shrunk g region g') : Moves g [] g' := by
  have hlt := hs.lt_stop
  have hstop : g'.objects.stop = region.stop := congrArg LinearSpace.stop hs.objects_eq
  refine ⟨fun hle => absurd hle (by omega), fun _ => ?_, nofun⟩
  rw [hs.cursor_eq, hstop]
  rfl

theorem Shrunk.led (hs : Shrunk g region g') (hl : Led g) : Led g' := by
  rw [Led, hs.objects_eq, hs.cursor_eq]
  exact Nat.le_trans (Nat.min_le_left ..) hl

theorem Resizes.moves {capacity target : Nat} (hr : Resizes g capacity target g')
    (h : InLine g old) :
    Moves g [] g' ∧ (g.config.touchCommitted = false → Led g → Led g') := by
  cases hr with
  | kept _ ha => exact ⟨ha.advances.moves, ha.advances.led⟩
  | grown _ hg =>
    cases hg with
    | nothing ha _ => exact ⟨ha.advances.moves, ha.advances.led⟩
    | grown hg _ => exact ⟨(hg.advances h.within).moves, (hg.advances h.within).led⟩
    | refused ha _ => exact ⟨ha.advances.moves, ha.advances.led⟩
  | shrunk _ hs _ => exact ⟨hs.moves, fun _ => hs.led⟩

/-- An operation moves the cursor down only with the end, and lets it lead no further than it may
unless it is asked to touch memory elsewhere. -/
theorem Operation.moves (op : Operation) (hr : op.run g = .ok out g') (h : InLine g old)
    (hl : g.cursor.stride ≤ g.cursor.limit) :
    Moves g out g' ∧ (g.config.touchCommitted = false →
      (∀ addr words, op ≠ .touchAhead addr words) → Led g → Led g') := by
  by_cases hop : op.Raises
  · obtain ⟨cs, hcs, hraises, rfl⟩ := op.calls.of_ok hr
    have ha := hcs.advances (fun c hc => hraises c hc hop) h hl
    exact ⟨ha.moves, fun ht _ => ha.led ht⟩
  cases op with
  | touchAhead addr words =>
    have hends : Ends (Operation.touchAhead addr words).run g (fun out g' => Moves g out g')
        fun _ _ => True := by
      refine ends_bind.2 ((touchAhead_ends h.within).mono (fun _ g' ht => ?_) fun _ _ _ => trivial)
      obtain ⟨touched, hf, -⟩ := ht.follow_eq
      have hfollows := TouchCursor.Follows.of_follow h.sound.isPowerOfTwo_stride h.within.stop_lt
        h.within.cursor_le hf
      have hstop : g'.objects.stop = g.objects.stop := congrArg LinearSpace.stop ht.objects_eq
      exact ⟨fun _ => hfollows.next_le, fun hlt => absurd hlt (by omega), nofun⟩
    exact ⟨hends.of_ok hr, fun _ hne => absurd rfl (hne addr words)⟩
  | resize desiredFree =>
    have hends : Ends (Operation.resize desiredFree).run g (fun out g' =>
        Moves g out g' ∧ (g.config.touchCommitted = false → Led g → Led g')) fun _ _ => True := by
      refine ends_bind.2 ((resize_ends h desiredFree).mono (fun _ _ hr => ?_) fun _ _ _ => trivial)
      obtain ⟨target, -, hr⟩ := hr
      exact hr.moves h
    obtain ⟨hm, hled⟩ := hends.of_ok hr
    exact ⟨hm, fun ht _ => hled ht⟩
  | giveBack bytes =>
    have hends : Ends (Operation.giveBack bytes).run g (fun out g' =>
        Moves g out g' ∧ (Led g → Led g')) fun _ _ => True := by
      refine ends_bind.2 (ends_get.2 (ends_bind.2 ((giveBack_ends h).mono (fun _ _ hb => ?_)
        fun _ _ _ => trivial)))
      cases hb with
      | nothing _ => exact ⟨(Advances.refl g).moves, fun hl => hl⟩
      | shrunk hs _ => exact ⟨hs.moves, hs.led⟩
    obtain ⟨hm, hled⟩ := hends.of_ok hr
    exact ⟨hm, fun _ _ => hled⟩
  | _ => exact absurd trivial hop

/-! ## From a new generation on -/

theorem Run.led (hr : Run g₀ ops out g) (h₀ : InLine g₀ old)
    (hl : g₀.cursor.stride ≤ g₀.cursor.limit) (ht : g₀.config.touchCommitted = false)
    (hops : ∀ addr words, .touchAhead addr words ∉ ops) (hled : Led g₀) : Led g := by
  induction hr with
  | start => exact hled
  | @call ops op out out' g g' hrun hr ih =>
    obtain ⟨region, hin⟩ := hrun.inLine h₀
    have hs := hrun.setup_eq h₀
    have hl' : g.cursor.stride ≤ g.cursor.limit := by
      rwa [show g.cursor.stride = _ from congrArg Setup.stride hs,
        show g.cursor.limit = _ from congrArg Setup.lead hs]
    refine (op.moves hr hin hl').2 (config_eq_of_setup hs ▸ ht) (fun addr words hop => ?_)
      (ih fun addr words hmem => hops addr words (List.mem_append_left _ hmem))
    exact hops addr words (hop ▸ List.mem_append_right _ (.head _))
  | store _ _ _ _ _ ih => exact ih hops

section New

variable {sys : AddressSpace} {s : Setting} {c : Config} {name : String} {level id : Nat}
  (hc : (create sys s c name level id).outcome = .result g₀)
include hc

/-- The cursor of a new generation: its stride and its limit, and where it is. -/
theorem create_cursor : g₀.cursor.stride = c.touchStride ∧
    g₀.cursor.limit = c.touchStride * max (c.workerCount s.machine) 1 ∧
    g₀.cursor.next = if c.touchCommitted then g₀.objects.stop else g₀.objects.top := by
  obtain ⟨base, heap, committed, j, -, -, -, hf, hasm⟩ := create_assembled hc
  obtain ⟨-, -, hnext, hstride⟩ := TouchCursor.ofStart_eq_ok hasm.cursor_eq
  have hlimit := TouchCursor.limit_of_ofStart hasm.cursor_eq
  have hworkers : g₀.workers.count = max (c.workerCount s.machine) 1 :=
    congrArg Workers.count hasm.workers_eq
  refine ⟨hstride, ?_, ?_⟩
  · rw [hlimit, hworkers, Nat.max_assoc, Nat.max_self]
  · rw [hnext, hasm.objects_eq]

/-- After every run the cursor is at the end or below it. It leads the top by no more than its
limit, which is a stride for each worker, and one stride, unless memory was touched elsewhere; or it
is at the end, if memory is touched as it is committed. Whatever is done next moves it down only if
it lowers the end, and then to the new end or not at all; and it leaves it past every block smaller
than a stride that it hands out. -/
theorem Run.cursor_leads (hr : Run g₀ ops out g) :
    g.cursor.next ≤ g.objects.stop ∧
    (g.cursor.stride = c.touchStride ∧
      g.cursor.limit = c.touchStride * max (c.workerCount s.machine) 1) ∧
    (c.touchCommitted = false → (∀ addr words, .touchAhead addr words ∉ ops) →
      g.cursor.next ≤ g.objects.top + g.cursor.limit + g.cursor.stride) ∧
    (c.touchCommitted = true → g.cursor.next = g.objects.stop) ∧
    ∀ (op : Operation) out' g', op.run g = .ok out' g' →
      (g.objects.stop ≤ g'.objects.stop → g.cursor.next ≤ g'.cursor.next) ∧
      (g'.objects.stop < g.objects.stop →
        g'.cursor.next = min g.cursor.next g'.objects.stop) ∧
      ∀ o ∈ out', o.size < g.cursor.stride → o.addr + o.size ≤ g'.cursor.next := by
  obtain ⟨region₀, hnew⟩ := create_new hc
  obtain ⟨hstride₀, hlimit₀, hnext₀⟩ := create_cursor hc
  obtain ⟨region, hin⟩ := hr.inLine hnew.toInLine
  have hs := hr.setup_eq hnew.toInLine
  have hstride : g.cursor.stride = g₀.cursor.stride := congrArg Setup.stride hs
  have hlimit : g.cursor.limit = g₀.cursor.limit := congrArg Setup.lead hs
  have hl₀ : g₀.cursor.stride ≤ g₀.cursor.limit := by
    rw [hstride₀, hlimit₀]
    exact Nat.le_mul_of_pos_right _ (by omega)
  refine ⟨hin.within.cursor_le, ⟨hstride.trans hstride₀, hlimit.trans hlimit₀⟩, ?_, ?_, ?_⟩
  · intro ht hops
    rw [ht, if_neg Bool.false_ne_true] at hnext₀
    have hled : Led g₀ := by
      rw [Led, hnext₀]
      omega
    exact hr.led hnew.toInLine hl₀ (hnew.config_eq ▸ ht) hops hled
  · intro ht
    rw [ht, if_pos rfl] at hnext₀
    obtain ⟨cs, hcs, -⟩ := hr.calls
    exact hcs.atEnd hnew.toInLine (hnew.config_eq ▸ ht) hnext₀
  · intro op out' g' hop
    have hm := (op.moves hop hin (by rwa [hstride, hlimit])).1
    exact ⟨hm.next_le, hm.next_eq, hm.passed⟩

end New

/-- A block of two words is touched with the page that it begins. -/
theorem Run.cursor_leads_small : ∃ g₀ g, small.outcome = .result g₀ ∧
    Run g₀ [.handOut 2] [⟨65536, 16⟩] g ∧ g.cursor.next ≤ g.objects.top + 8192 ∧
    65552 ≤ g.cursor.next := by
  have hrun : ∃ g₀, small.outcome = .result g₀ ∧
      ∃ g, (Operation.handOut 2).run g₀ = .ok [⟨65536, 16⟩] g := ⟨_, rfl, _, rfl⟩
  obtain ⟨g₀, hc, g, hr⟩ := hrun
  have hrun : Run g₀ [.handOut 2] [⟨65536, 16⟩] g := .call .start hr
  obtain ⟨-, ⟨hstride₀, -⟩, -, -, hops⟩ := Run.cursor_leads hc .start
  obtain ⟨-, ⟨hstride, hlimit⟩, hled, -⟩ := Run.cursor_leads hc hrun
  have hled := hled rfl (by simp)
  rw [hstride, hlimit] at hled
  refine ⟨g₀, g, hc, hrun, hled, (hops _ _ g hr).2.2 ⟨65536, 16⟩ (.head _) ?_⟩
  rw [hstride₀]
  decide

end Generation

end Tenured
