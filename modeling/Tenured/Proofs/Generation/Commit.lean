import Tenured.Generation.Growth
import Tenured.Proofs.Generation.Update
import Tenured.Proofs.Reservation

/-!
# Commits

A commit either moves the end of the backing, which leaves the other parts behind until they follow
(`Behind`), or it is refused and changes no part. `Asked` is what one commit comes to:

* `Generation.growBy_ends`, `Generation.growFully_ends`: a commit of so many bytes, or of all that
  is left.
-/

namespace Tenured

/-- The memory after a release depends on the memory before only. -/
theorem Reservation.memory_giveBack {r : Reservation} {n : Nat} {h h' : Host}
    (hm : h.memory = h'.memory) : (r.giveBack n h).memory = (r.giveBack n h').memory := by
  simp only [giveBack, hm]
  cases r.mapping.giveBack (r.high - n) n h'.memory with
  | ok m => rfl
  | error e => exact hm

namespace Backing

variable {v : Backing} {bytes : Nat}

/-- A commit is granted where the rule says so and there is room for it. -/
theorem granted?_eq_some_iff (ha : v.base.alignment.isPowerOfTwo) {r : Reservation} :
    v.granted? bytes = some r ↔ v.grants v.commits v.committed bytes = true ∧
      (0 < bytes ∧ v.base.alignment ∣ bytes ∧ bytes ≤ v.base.left) ∧
      r = { v.base with high := v.base.high + bytes } := by
  unfold granted?
  split <;> simp [*, Reservation.commit?_eq_some_iff ha]

theorem granted?_zero : v.granted? 0 = none := by
  simp only [granted?, Reservation.commit?, true_or, if_true, ite_self]

theorem release_eq_ok {host : Host} (h : bytes ≤ v.committed) (hz : bytes ≠ 0) :
    v.release bytes host = .ok ({ v with
      base := { v.base with high := v.base.high - bytes }
      releases := v.releases + 1 }, v.base.giveBack bytes host) := by
  have h : bytes ≤ v.base.committed := h
  simp only [release, Reservation.release, check, h, hz, if_true, if_false]
  rfl

end Backing

namespace Generation

open Tenured.Action

variable {g : Generation} {old region : Region} {E : Fault → Generation → Prop}

/-! ## Records -/

theorem write_ends {level : Level} {text : String} :
    Ends (write level text) g (fun _ g' => Alike g g') E :=
  ends_modify.2 ⟨rfl, rfl, rfl, rfl, rfl, rfl, rfl⟩

theorem emit_ends {e : Event} : Ends (emit e) g (fun _ g' => Alike g g') E :=
  ends_modify.2 ⟨rfl, rfl, rfl, rfl, rfl, rfl, rfl⟩

theorem publishCapacity_ends (h : g.objects.bottom ≤ g.objects.stop) :
    Ends publishCapacity g (fun _ g' => Alike g g') E := by
  refine ends_bind.2 (ends_get.2 ?_)
  have hc : g.capacity = .ok (g.objects.stop - g.objects.bottom) := Word.sub_eq_ok_iff.2 ⟨h, rfl⟩
  refine ends_ite.2 ⟨fun _ => ?_, fun _ => Alike.refl g⟩
  exact ends_bind.2 ((ends_lift_of_eq hc).2 (ends_set.2 ⟨rfl, rfl, rfl, rfl, rfl, rfl, rfl⟩))

/-- What is done after a growth or a release for the records of it. -/
theorem record_ends {f : Generation → Generation} {text : String} {e : Event}
    (hf : ∀ g, Alike g (f g)) (h : g.objects.bottom ≤ g.objects.stop) :
    Ends (do publishCapacity; modify f; write .debug text; emit e) g
      (fun _ g' => Alike g g') E := by
  refine ends_bind.2 ((publishCapacity_ends h).imp fun _ g₁ h₁ => ?_)
  refine ends_bind.2 (ends_modify.2 (ends_bind.2 (write_ends.imp fun _ g₂ h₂ => ?_)))
  exact emit_ends.imp fun _ g₃ h₃ => h₁.trans ((hf g₁).trans (h₂.trans h₃))

/-! ## The other parts follow -/

theorem Grown.alike {g' g'' : Generation} (h : Grown g region g') (ha : Alike g' g'') :
    Grown g region g'' where
  setup_eq := ha.setup_eq.trans h.setup_eq
  start_eq := h.start_eq
  dvd_stop := h.dvd_stop
  high_eq := by rw [ha.base_eq, h.high_eq]
  cards_eq := ha.cards_eq.trans h.cards_eq
  crossings_eq := ha.crossings_eq.trans h.crossings_eq
  objects_eq := ha.objects_eq.trans h.objects_eq
  stop_lt := h.stop_lt
  stop_le := h.stop_le
  cursor_eq := ha.cursor_eq.trans h.cursor_eq
  memory_eq := by rw [ha.memory_eq]; exact h.memory_eq

/-- The backing has committed up to the end of a region, and the other parts are in line with what
was committed before. -/
structure Behind (g : Generation) (old region : Region) (b : Backing) : Prop where
  inLine : InLine g old
  committed : Committed { g with backing := b } region
  setup_eq : { g with backing := b }.setup = g.setup

/-- The other parts follow a backing that grew, and nothing after that changes them. -/
theorem Behind.settle_ends {b : Backing} (h : Behind g old region b) (hlt : old.stop < region.stop)
    {x : Action Unit} (hx : ∀ g', g'.objects.bottom ≤ g'.objects.stop →
      Ends x g' (fun _ g'' => Alike g' g'') fun _ g'' => Stuck g g'') :
    Ends (do settle true; x)
      { g with backing := b, memory := g.mangledUpTo region.stop }
      (fun _ g' => Grown g region g') (fun _ g' => Stuck g g') := by
  have hb : region.start = g.objects.bottom :=
    h.committed.start_eq.trans (h.inLine.start_eq.symm.trans h.inLine.bottom_eq.symm)
  have hstop : g.objects.stop < region.stop := h.inLine.end_eq ▸ hlt
  have hc : Committed { g with backing := b, memory := g.mangledUpTo region.stop } region :=
    ⟨h.committed.1, h.committed.2, h.committed.3, h.committed.4, h.committed.5⟩
  have ht : region.start ≤ g.objects.top ∧ g.objects.top ≤ region.stop := by
    have := h.inLine.bottom_le_top
    have := h.inLine.top_le
    have := h.inLine.bottom_eq
    omega
  have hs : g.objects.bottom ≤ g.objects.stop := by
    rw [h.inLine.bottom_eq, h.inLine.end_eq]; exact old.start_le_stop
  refine ends_bind.2 ((hc.settle_ends true hb hs ht (fun _ => hstop) fun _ he _ g' ho hm => ?_).imp
    fun _ g₁ h₁ => ?_)
  · refine ⟨h.setup_eq ▸ he, Nat.le_of_eq (by rw [ho]), fun i hi => ?_⟩
    rw [hm]
    exact wordAt_mangledUpTo (h.inLine.end_eq ▸ h.inLine.top_le) _ hi
  · refine (hx g₁ ?_).imp fun _ g₂ h₂ => Grown.alike ?_ h₂
    · rw [h₁.objects_eq]; exact region.start_le_stop
    · have hcursor := h₁.cursor_eq
      obtain ⟨addrs, ha, hm⟩ := h₁.memory_eq
      exact ⟨⟨h₁.setup_eq.trans h.setup_eq, hb, h.committed.dvd_stop, h₁.high_eq, h₁.cards_eq,
        h₁.crossings_eq, h₁.objects_eq⟩, hstop, h.committed.stop_le, hcursor, addrs, ha, hm⟩

theorem settleGrowth_ends {b : Backing} (h : Behind g old region b) (hlt : old.stop < region.stop) :
    Ends (settleGrowth g.backing.high) { g with backing := b } (fun _ g' => Grown g region g')
      (fun _ g' => Stuck g g') := by
  have hold : g.backing.high = g.objects.stop := h.inLine.backing_high.trans h.inLine.end_eq.symm
  have hhigh : b.high = region.stop := h.committed.backing_high
  have hs : g.objects.stop < region.stop := h.inLine.end_eq ▸ hlt
  have hsettle := @Behind.settle_ends _ _ _ _ h hlt
  unfold settleGrowth
  refine ends_bind.2 (ends_get.2 ?_)
  dsimp only
  refine ends_ite.2 ⟨fun hm => ?_, fun hm => ?_⟩
  · have hr : Region.ofBounds g.backing.high b.high =
        .ok ⟨g.objects.stop, region.stop, Nat.le_of_lt hs⟩ :=
      Region.ofBounds_eq_ok_iff.2 ⟨hold.symm, hhigh.symm⟩
    refine ends_bind.2 ((ends_lift_of_eq hr).2 (ends_bind.2 ((ends_mangle ?_ ?_).2 ?_)))
    · exact hs
    · exact Nat.dvd_trans (by decide) (h.inLine.end_eq.symm ▸ h.inLine.page_dvd_stop)
    · rw [mangledUpTo, if_pos hm] at hsettle
      exact hsettle fun _ => record_ends fun _ => ⟨rfl, rfl, rfl, rfl, rfl, rfl, rfl⟩
  · rw [mangledUpTo, if_neg hm] at hsettle
    exact hsettle fun _ => record_ends fun _ => ⟨rfl, rfl, rfl, rfl, rfl, rfl, rfl⟩

/-! ## Commits -/

/-- What asking for so many bytes more ends in, if the end was `stop` before. -/
inductive Asked (g : Generation) (bytes : Nat) : Bool → Generation → Prop
  | granted {region : Region} {g' : Generation} (h : Grown g region g')
    (hs : region.stop = g.objects.stop + bytes) : Asked g bytes true g'
  | refused {g' : Generation} (h : Alike g g') (hr : g.backing.granted? bytes = none) :
    Asked g bytes false g'

/-- A backing that commits up to a new end leaves the other parts behind. -/
theorem InLine.behind (h : InLine g old) {bytes : Nat} {base : Reservation}
    (hb : g.backing.granted? bytes = some base) :
    ∃ region : Region, region.stop = old.stop + bytes ∧ old.stop < region.stop ∧
      Behind g old region { g.backing with base, commits := g.backing.commits + 1 } := by
  obtain ⟨-, ⟨hpos, hd, hl⟩, rfl⟩ := (Backing.granted?_eq_some_iff (by
    rw [show g.backing.base.alignment = _ from h.backing_alignment]
    exact h.sound.usable.isPowerOfTwo_alignment)).1 hb
  rw [h.base_left] at hl
  rw [show g.backing.base.alignment = _ from h.backing_alignment] at hd
  have := old.start_le_stop
  have := h.stop_le
  refine ⟨⟨old.start, old.stop + bytes, by omega⟩, rfl, ?_, h,
    ⟨h.sound, h.start_eq, ?_, ?_, ?_⟩, rfl⟩
  · show old.stop < old.stop + bytes
    omega
  · show old.stop + bytes ≤ g.reserved.stop
    omega
  · exact Nat.dvd_add h.dvd_stop hd
  · exact congrArg (· + bytes) h.high_eq

/-- A commit leaves the other parts behind, or changes the counts only. -/
theorem InLine.commit_cases (h : InLine g old) (bytes : Nat) :
    (∃ region b, g.backing.commit bytes = (true, b) ∧ region.stop = old.stop + bytes ∧
      old.stop < region.stop ∧ Behind g old region b) ∨
    ∃ b, g.backing.commit bytes = (false, b) ∧ g.backing.granted? bytes = none ∧
      Alike g { g with backing := b } := by
  unfold Backing.commit
  cases hb : g.backing.granted? bytes with
  | some base =>
    obtain ⟨region, hs, hlt, hbehind⟩ := h.behind hb
    exact .inl ⟨region, _, rfl, hs, hlt, hbehind⟩
  | none => exact .inr ⟨_, rfl, rfl, rfl, rfl, rfl, rfl, rfl, rfl, rfl⟩

theorem ends_checkGuard {Q : Unit → Generation → Prop} :
    Ends (checkGuard g.guard) g Q E ↔ Q () g := by
  have h : check (g.guard.owner = g.id) .foreignGuard = .ok () := check_eq_ok_iff.2 rfl
  simp only [checkGuard, ends_bind, ends_get, ends_lift_of_eq h]

theorem ends_growBy_zero {Q : Bool → Generation → Prop} :
    Ends (growBy g.guard 0) g Q E ↔ Q true g := by
  simp only [growBy, ends_bind, ends_checkGuard, if_true, ends_pure]

section Ask

variable (h : InLine g old) {Q : Bool → Generation → Prop}
include h

/-- Asking for so many bytes more ends as what follows a granted commit does, or with a refused
one. -/
theorem InLine.ends_growBy {bytes : Nat} (hb : bytes ≠ 0)
    (hg : ∀ region b, g.backing.commit bytes = (true, b) → region.stop = old.stop + bytes →
      old.stop < region.stop → Behind g old region b →
      Ends (settleGrowth g.backing.high) { g with backing := b } (fun _ g' => Q true g') E)
    (hr : ∀ b, g.backing.commit bytes = (false, b) → g.backing.granted? bytes = none →
      Alike g { g with backing := b } → Q false { g with backing := b }) :
    Ends (growBy g.guard bytes) g Q E := by
  unfold growBy
  refine ends_bind.2 (ends_checkGuard.2 ?_)
  rw [if_neg hb]
  refine ends_bind.2 (ends_get.2 ?_)
  rcases h.commit_cases bytes with ⟨region, b, hc, hs, hlt, hbehind⟩ | ⟨b, hc, hnone, ha⟩
  · simp only [hc, if_true]
    exact ends_bind.2 (ends_set.2 (ends_bind.2 (hg region b hc hs hlt hbehind)))
  · simp only [hc, Bool.false_eq_true, if_false]
    exact ends_bind.2 (ends_set.2 (hr b hc hnone ha))

/-- So does asking for all that is left, if something is. A refusal is reported. -/
theorem InLine.ends_growFully {left : Nat} (hl : left = g.reserved.stop - old.stop)
    (hz : left = 0 → Q false g)
    (hg : ∀ region b, left ≠ 0 → g.backing.commit left = (true, b) →
      region.stop = old.stop + left → old.stop < region.stop → Behind g old region b →
      Ends (settleGrowth g.backing.high) { g with backing := b } (fun _ g' => Q true g') E)
    (hr : ∀ b journal events, left ≠ 0 → g.backing.commit left = (false, b) →
      g.backing.granted? left = none → Alike g { g with backing := b, journal, events } →
      Q false { g with backing := b, journal, events }) :
    Ends (growFully g.guard) g Q E := by
  subst hl
  unfold growFully
  refine ends_bind.2 (ends_checkGuard.2 (ends_bind.2 (ends_get.2 ?_)))
  refine ends_bind.2 ((ends_lift_of_eq h.backing_left).2 (ends_ite.2 ⟨hz, fun hpos => ?_⟩))
  rcases h.commit_cases (g.reserved.stop - old.stop) with
    ⟨region, b, hc, hs, hlt, hbehind⟩ | ⟨b, hc, hnone, ha⟩
  · simp only [hc, if_true]
    exact ends_bind.2 (ends_set.2 (ends_bind.2 (hg region b hpos hc hs hlt hbehind)))
  · simp only [hc, Bool.false_eq_true, if_false]
    refine ends_bind.2 (ends_set.2 (ends_bind.2 (ends_modify.2 ?_)))
    refine ends_bind.2 ((ends_lift_of_eq h.backing_reserved).2 (ends_bind.2 (ends_modify.2 ?_)))
    exact hr b _ _ hpos hc hnone (ha.trans ⟨rfl, rfl, rfl, rfl, rfl, rfl, rfl⟩)

end Ask

theorem growBy_ends (h : InLine g old) {bytes : Nat} (hb : bytes ≠ 0) :
    Ends (growBy g.guard bytes) g (Asked g bytes) fun _ g' => Stuck g g' :=
  h.ends_growBy hb
    (fun _ _ _ hs hlt hbehind => (settleGrowth_ends hbehind hlt).imp fun _ _ hg =>
      .granted hg (h.end_eq ▸ hs))
    fun _ _ hnone ha => .refused ha hnone

theorem growFully_ends (h : InLine g old) :
    Ends (growFully g.guard) g (Asked g (g.reserved.stop - old.stop))
      fun _ g' => Stuck g g' :=
  h.ends_growFully rfl (fun hz => .refused (Alike.refl g) (hz ▸ Backing.granted?_zero))
    (fun _ _ _ _ hs hlt hbehind => (settleGrowth_ends hbehind hlt).imp fun _ _ hg =>
      .granted hg (h.end_eq ▸ hs))
    fun _ _ _ _ _ hnone ha => .refused ha hnone

end Generation

end Tenured
