import Tenured.Proofs.Generation.Books
import Tenured.Proofs.Generation.Supplied

/-!
# Growth, commit by commit

Growth asks for up to three commits (`rungs`): the least step, what was asked for, and all that is
left. `Backing.ask` asks for commits in turn until one is granted.

* `Backing.of_ask_none`, `Backing.of_ask_some`: commits that are refused change the counts only.
* `Generation.grow_climbs`: growth asks for its rungs in turn. It follows the first commit that is
  granted, by exactly so many bytes (`GrownBy`), and if none is, it leaves everything as it was but
  counts the failure (`Climbs`).
* `Generation.allocate_climbs`: an allocation is growth, one after another, until the block fits or
  nothing is granted (`GrowsFor`). What is left to commit bounds how often it grows.
* `Generation.Run.grows_by_rungs`: both, after every run, whichever commits are refused.
-/

namespace Tenured

namespace Backing

variable {v v' : Backing} {n : Nat} {ns ms : List Nat}

/-- Asks for one commit after another until one is granted. The result is the one granted. -/
def ask : Backing → List Nat → Option Nat × Backing
  | v, [] => (none, v)
  | v, n :: ns =>
    match v.commit n with
    | (true, v) => (some n, v)
    | (false, v) => v.ask ns

theorem ask_cons_of_true (h : v.commit n = (true, v')) : v.ask (n :: ns) = (some n, v') := by
  rw [ask, h]

theorem ask_cons_of_false (h : v.commit n = (false, v')) : v.ask (n :: ns) = v'.ask ns := by
  rw [ask, h]

theorem ask_append_of_none (h : v.ask ns = (none, v')) : v.ask (ns ++ ms) = v'.ask ms := by
  induction ns generalizing v with
  | nil => cases h; rfl
  | cons n ns ih =>
    rw [ask] at h
    split at h
    · cases h
    · rename_i hc
      rw [List.cons_append, ask_cons_of_false hc]
      exact ih h

theorem ask_append_of_some (h : v.ask ns = (some n, v')) : v.ask (ns ++ ms) = (some n, v') := by
  induction ns generalizing v with
  | nil => cases h
  | cons m ns ih =>
    rw [ask] at h
    split at h
    · rename_i hc
      cases h
      exact ask_cons_of_true hc
    · rename_i hc
      rw [List.cons_append, ask_cons_of_false hc]
      exact ih h

/-- Commits that are all refused are counted, and nothing else changes. -/
theorem of_ask_none (h : v.ask ns = (none, v')) :
    v' = { v with commits := v.commits + ns.length, refusals := v.refusals + ns.length } := by
  induction ns generalizing v with
  | nil => cases h; rfl
  | cons n ns ih =>
    rw [ask] at h
    split at h
    · cases h
    · rename_i hc
      rw [ih h, commit_eq_false hc]
      simp only [List.length_cons, Nat.add_assoc, Nat.add_comm 1]

/-- The first commit that is granted raises the committed end by exactly so much, those before it
are counted as refused, and nothing is asked for after it. -/
theorem of_ask_some (h : v.ask ns = (some n, v')) : ∃ before after, ns = before ++ n :: after ∧
    v' = { v with
      base := { v.base with high := v.base.high + n }
      commits := v.commits + before.length + 1
      refusals := v.refusals + before.length } := by
  induction ns generalizing v with
  | nil => cases h
  | cons m ns ih =>
    rw [ask] at h
    split at h
    · rename_i hc
      cases h
      refine ⟨[], ns, rfl, ?_⟩
      unfold commit granted? at hc
      split at hc
      · rename_i hg
        cases hc
        split at hg
        · rw [(Reservation.commit?_eq_some hg).2.2]; rfl
        · cases hg
      · cases hc
    · rename_i hc
      obtain ⟨before, after, rfl, rfl⟩ := ih h
      refine ⟨m :: before, after, rfl, ?_⟩
      rw [commit_eq_false hc]
      simp only [List.length_cons, Nat.add_assoc, Nat.add_comm 1]

end Backing

namespace Generation

open Tenured.Action
open Object (wordSize minWords)

variable {g g' g₀ g₁ g₂ : Generation} {old region : Region} {n bytes words : Nat} {v : Backing}
  {ns ms : List Nat} {granted : Bool}

/-! ## What growth leaves -/

/-- Growth by so many bytes, for which the backing became `v`: every part follows, and the totals
and the figures say so. -/
structure GrownBy (g : Generation) (n : Nat) (v : Backing) (g' : Generation) : Prop where
  exists_grown : ∃ region, Grown g region g' ∧ region.stop = g.objects.stop + n
  backing_eq : g'.backing = v
  totals_eq : g'.totals = g.totals.recordGrowth n .zero
  publishes : Publishes g.config.keepFigures g'

/-- What asking for these commits in turn, and following the first one that is granted, ends in. -/
inductive Climbs (g : Generation) (ns : List Nat) : Bool → Generation → Prop
  | granted {n : Nat} {v : Backing} {g' : Generation} (h : g.backing.ask ns = (some n, v))
    (hg : GrownBy g n v g') : Climbs g ns true g'
  | refused {v : Backing} (h : g.backing.ask ns = (none, v)) (journal : Journal)
    (events : EventLog) : Climbs g ns false { g with backing := v, journal, events }

theorem Climbs.alike (h : Climbs g ns false g') : Alike g g' := by
  cases h with
  | refused h journal events =>
    obtain rfl := Backing.of_ask_none h
    exact ⟨rfl, rfl, rfl, rfl, rfl, rfl, rfl⟩

theorem Climbs.left_eq (h : Climbs g ns false g') : g'.backing.left = g.backing.left := by
  cases h with
  | refused h journal events =>
    obtain rfl := Backing.of_ask_none h
    rfl

/-- After a commit is granted, no further one is asked for. -/
theorem Climbs.append_of_true (h : Climbs g ns true g') : Climbs g (ns ++ ms) true g' := by
  cases h with
  | granted h hg => exact .granted (Backing.ask_append_of_some h) hg

/-- After commits are refused, the next ones are asked for. -/
theorem Climbs.append_of_false (h : Climbs g ns false g') (h' : Climbs g' ms granted g₂) :
    Climbs g (ns ++ ms) granted g₂ := by
  have ha := h.alike
  cases h with
  | refused h journal events =>
    cases h' with
    | granted h' hg =>
      obtain ⟨region, hgrown, hs⟩ := hg.exists_grown
      exact .granted ((Backing.ask_append_of_none h).trans h')
        ⟨⟨region, hgrown.of_alike ha, hs⟩, hg.backing_eq, hg.totals_eq, hg.publishes⟩
    | refused h' journal' events' =>
      exact .refused ((Backing.ask_append_of_none h).trans h') journal' events'

/-! ## The backing is left alone -/

theorem apply_backing {u : Update} :
    Ends u.apply g (fun _ g' => g'.backing = g.backing) fun _ _ => True := by
  cases u with
  | mangle region =>
    refine ends_bind.2 (ends_get.2 (ends_lift_bind fun _ _ => ends_lift_bind fun _ _ => ?_))
    exact ends_set.2 rfl
  | coverCards region =>
    refine ends_bind.2 (ends_modify.2 (ends_bind.2 (ends_get.2 (ends_lift_bind fun _ _ => ?_))))
    exact ends_set.2 rfl
  | coverCrossings region =>
    refine ends_bind.2 (ends_modify.2 (ends_bind.2 (ends_get.2 (ends_lift_bind fun _ _ => ?_))))
    exact ends_set.2 rfl
  | touchNew region =>
    exact ends_bind.2 (ends_get.2 (ends_lift_bind fun _ _ => ends_set.2 rfl))
  | setBottom region =>
    exact ends_bind.2 (ends_get.2 (ends_lift_bind fun _ _ => ends_set.2 rfl))
  | setStop stop => exact ends_modify.2 rfl
  | advanceCursor stop => exact ends_modify.2 rfl
  | retreatCursor stop => exact ends_modify.2 rfl

/-- By induction on the updates. -/
theorem updates_backing {us : List Update} :
    Ends (us.forM Update.apply) g (fun _ g' => g'.backing = g.backing) fun _ _ => True := by
  induction us generalizing g with
  | nil => exact ends_pure.2 rfl
  | cons u us ih =>
    exact ends_forM_cons.2 (apply_backing.imp fun _ _ h => ih.imp fun _ _ h' => h'.trans h)

theorem settle_backing {grown : Bool} :
    Ends (settle grown) g (fun _ g' => g'.backing = g.backing) fun _ _ => True :=
  ends_bind.2 (ends_get.2 (ends_lift_bind fun _ _ => ends_lift_bind fun _ _ => updates_backing))

theorem publishCapacity_backing :
    Ends publishCapacity g (fun _ g' => g'.backing = g.backing) fun _ _ => True := by
  refine ends_bind.2 (ends_get.2 (ends_ite.2 ⟨fun _ => ?_, fun _ => ends_pure.2 rfl⟩))
  exact ends_lift_bind fun _ _ => ends_set.2 rfl

theorem settleGrowth_backing {oldHigh : Nat} :
    Ends (settleGrowth oldHigh) g (fun _ g' => g'.backing = g.backing) fun _ _ => True := by
  have hrest : ∀ {f : ResizeTotals → ResizeTotals} {text : String} {e : Event} {g₁ : Generation},
      g₁.backing = g.backing → Ends (do
        settle true
        publishCapacity
        modify fun g => { g with totals := f g.totals }
        write .debug text
        emit e) g₁ (fun _ g' => g'.backing = g.backing) fun _ _ => True := by
    intro f text e g₁ h₁
    refine ends_bind.2 (settle_backing.imp fun _ g₂ h₂ => ?_)
    refine ends_bind.2 (publishCapacity_backing.imp fun _ g₃ h₃ => ?_)
    exact ends_bind.2 (ends_modify.2 (ends_bind.2 (ends_modify.2 (ends_modify.2
      (h₃.trans (h₂.trans h₁))))))
  refine ends_bind.2 (ends_get.2 ?_)
  dsimp only
  refine ends_ite.2 ⟨fun _ => ends_lift_bind fun _ _ => ?_, fun _ => ?_⟩
  · exact ends_bind.2 (apply_backing.imp fun _ _ h =>
      hrest (f := fun t => t.recordGrowth _ .zero) h)
  · exact hrest (f := fun t => t.recordGrowth _ .zero) rfl

/-! ## One commit -/

/-- What is done after a commit of so many bytes was granted. -/
theorem settleGrowth_grownBy (hv : Behind g old region v) (hlt : old.stop < region.stop)
    (hs : region.stop = old.stop + n) :
    Ends (settleGrowth g.backing.high) { g with backing := v } (fun _ g' => GrownBy g n v g')
      fun _ g' => Stuck g g' := by
  refine (settleGrowth_ends hv hlt).imp_of_ok fun _ g' hr hg => ?_
  have hhigh : v.high = region.stop := hv.committed.backing_high
  have hold := hv.inLine.backing_high
  have hn : n = v.high - g.backing.high := by omega
  have hreports : Reports (settleGrowth g.backing.high) [] { g with backing := v } _ :=
    reports_settleGrowth hn
  obtain ⟨_, ⟨-, hbooked⟩, -⟩ := hreports.of_ok hr
  exact ⟨⟨region, hg, hv.inLine.end_eq ▸ hs⟩, settleGrowth_backing.of_ok hr, hbooked.totals_eq,
    hbooked.publishes⟩

theorem growBy_climbs (h : InLine g old) (hb : bytes ≠ 0) :
    Ends (growBy g.guard bytes) g (Climbs g [bytes]) fun _ g' => Stuck g g' :=
  h.ends_growBy hb
    (fun _ _ hc hs hlt hbehind => (settleGrowth_grownBy hbehind hlt hs).imp fun _ _ hg =>
      .granted (Backing.ask_cons_of_true hc) hg)
    fun _ hc _ _ => .refused (Backing.ask_cons_of_false hc) g.journal g.events

/-- Nothing is asked for if nothing is left. -/
theorem growFully_climbs (h : InLine g old) {left : Nat} (hl : g.backing.left = .ok left) :
    Ends (growFully g.guard) g (Climbs g (if left = 0 then [] else [left]))
      fun _ g' => Stuck g g' := by
  refine h.ends_growFully (Except.ok.inj (hl.symm.trans h.backing_left)) (fun hz => ?_)
    (fun _ _ hz hc hs hlt hbehind => ?_) fun _ journal events hz hc _ _ => ?_
  · rw [if_pos hz]
    exact .refused rfl g.journal g.events
  · rw [if_neg hz]
    exact (settleGrowth_grownBy hbehind hlt hs).imp fun _ _ hg =>
      .granted (Backing.ask_cons_of_true hc) hg
  · rw [if_neg hz]
    exact .refused (Backing.ask_cons_of_false hc) journal events

/-! ## Growth -/

/-- The commits that growth asks for: the least step, if it is larger than the request, the request,
and all that is left, if something is. -/
def rungs (step request left : Nat) : List Nat :=
  (if request < step then [step] else []) ++ request :: (if left = 0 then [] else [left])

theorem length_rungs_le (step request left : Nat) : (rungs step request left).length ≤ 3 := by
  unfold rungs
  split <;> split <;> simp

/-- The generation after its growth, if that was in vain: the failure is counted. -/
def countFailure (granted : Bool) (g : Generation) : Generation :=
  if granted then g else { g with totals := g.totals.recordFailure }

/-- Growth from the second rung on. -/
theorem growBy_or_growFully_climbs (h : InLine g old) {request left : Nat} (hr : request ≠ 0)
    (hl : g.backing.left = .ok left) :
    Ends (do
      if ← growBy g.guard request then return true
      if ← growFully g.guard then return true
      modify fun g => { g with totals := g.totals.recordFailure }
      return false) g (fun granted g' => ∃ g₁,
        Climbs g (request :: (if left = 0 then [] else [left])) granted g₁ ∧
        g' = countFailure granted g₁) fun _ g' => Stuck g g' := by
  refine ends_bind.2 ((growBy_climbs h hr).imp fun granted g₁ h₁ => ?_)
  cases granted with
  | true => exact ⟨g₁, h₁.append_of_true, rfl⟩
  | false =>
    have ha := h₁.alike
    rw [← ha.guard_eq]
    refine ends_bind.2 ((growFully_climbs (ha.inLine h) (h₁.left_eq.trans hl)).mono
      (fun granted g₂ h₂ => ?_) fun _ _ he => he.of_alike ha)
    cases granted with
    | true => exact ⟨g₂, h₁.append_of_false h₂, rfl⟩
    | false => exact ⟨g₂, h₁.append_of_false h₂, rfl⟩

/-- Growth asks for its rungs in turn. -/
theorem grow_climbs (h : InLine g old) {step request left : Nat} (hs : g.leastStep = .ok step)
    (hq : alignedRequest bytes g.backing.alignment = .ok request) (hr : request ≠ 0)
    (hl : g.backing.left = .ok left) :
    Ends (grow g.guard bytes) g (fun granted g' => ∃ g₁,
      Climbs g (rungs step request left) granted g₁ ∧ g' = countFailure granted g₁)
      fun _ g' => Stuck g g' := by
  unfold grow rungs
  refine ends_bind.2 (ends_checkGuard.2 (ends_bind.2 (ends_get.2 ?_)))
  refine ends_bind.2 ((ends_lift_of_eq hs).2 (ends_bind.2 ((ends_lift_of_eq hq).2 ?_)))
  dsimp only
  refine ends_ite.2 ⟨fun hlt => ?_, fun hge => ?_⟩
  · rw [if_pos hlt]
    refine ends_bind.2 ((growBy_climbs h (by omega)).imp fun granted g₁ h₁ => ?_)
    cases granted with
    | true => exact ⟨g₁, h₁.append_of_true, rfl⟩
    | false =>
      have ha := h₁.alike
      rw [← ha.guard_eq]
      refine (growBy_or_growFully_climbs (ha.inLine h) hr (h₁.left_eq.trans hl)).mono
        (fun granted g₂ h₂ => ?_) fun _ _ he => he.of_alike ha
      obtain ⟨g₃, h₃, he⟩ := h₂
      exact ⟨g₃, h₁.append_of_false h₃, he⟩
  · rw [if_neg hge]
    exact growBy_or_growFully_climbs h hr hl

/-- The least step is the configured one, rounded up, and at least one unit for each node. -/
theorem InLine.leastStep_eq_ok_iff (h : InLine g old) {step : Nat} : g.leastStep = .ok step ↔
    (g.config.perNode = true → g.config.alignment * g.nodes < Word.limit) ∧
      step = max (Rounding.roundUp g.config.leastGrowth g.config.alignment)
        (if g.config.perNode then g.config.alignment * g.nodes else 0) := by
  have hup : Rounding.up g.config.leastGrowth g.config.alignment = .ok _ :=
    Rounding.up_eq_ok h.sound.usable.isPowerOfTwo_alignment
  simp only [leastStep, h.backing_alignment]
  rw [bind_eq_ok_iff]
  by_cases hp : g.config.perNode = true
  · simp only [if_pos hp]
    constructor
    · rintro ⟨_, hup', hs⟩
      obtain rfl := Except.ok.inj (hup.symm.trans hup')
      obtain ⟨_, hm, hs⟩ := bind_eq_ok_iff.1 hs
      obtain ⟨hlt, rfl⟩ := Word.mul_eq_ok_iff.1 hm
      exact ⟨fun _ => hlt, (Except.ok.inj hs).symm⟩
    · rintro ⟨hlt, rfl⟩
      exact ⟨_, hup, bind_eq_ok_iff.2 ⟨_, Word.mul_eq_ok_iff.2 ⟨hlt hp, rfl⟩, rfl⟩⟩
  · simp only [if_neg hp, Nat.max_zero]
    constructor
    · rintro ⟨_, hup', hs⟩
      obtain rfl := Except.ok.inj (hup.symm.trans hup')
      exact ⟨fun h => absurd h hp, (Except.ok.inj hs).symm⟩
    · rintro ⟨-, rfl⟩
      exact ⟨_, hup, rfl⟩

/-- A request is rounded up to whole alignment units, or down where the sum for that is no word. -/
theorem alignedRequest_eq {a : Nat} (ha : a.isPowerOfTwo) (hal : a < Word.limit)
    (hlt : bytes < Word.limit) : alignedRequest bytes a =
      .ok (if bytes + (a - 1) < Word.limit then (bytes + (a - 1)) / a * a else bytes / a * a) := by
  simp only [alignedRequest, Rounding.up_eq_ok ha, Rounding.down_eq_ok ha, bind, Except.bind]
  rw [Rounding.roundDown_of_isPowerOfTwo ha]
  by_cases hsum : bytes + (a - 1) < Word.limit
  · have hup : Rounding.roundUp bytes a = (bytes + (a - 1)) / a * a := by
      rw [Rounding.roundUp_of_isPowerOfTwo ha, Word.addWrap_of_lt hsum]
    rw [if_pos hsum, hup]
    split
    · -- Only nothing is rounded up to nothing.
      rename_i hz
      obtain rfl : bytes = 0 := by
        have := Rounding.le_roundUp_of_lt ha hsum
        omega
      rw [hz, Nat.zero_div, Nat.zero_mul]
    · rfl
  · rw [if_neg hsum, if_pos (Rounding.roundUp_eq_zero ha hal hlt (Nat.le_of_not_lt hsum))]

/-- A request for something is rounded to something. -/
theorem alignedRequest_ne_zero {a request : Nat} (ha : a.isPowerOfTwo) (hal : a < Word.limit)
    (hb : bytes ≠ 0) (hlt : bytes < Word.limit) (hq : alignedRequest bytes a = .ok request) :
    request ≠ 0 := by
  obtain ⟨request', hq', -, hle⟩ := alignedRequest_eq_ok bytes ha hal
  obtain rfl := Except.ok.inj (hq.symm.trans hq')
  have := hle hlt
  omega

/-- Growth asks for its rungs in turn, where it cannot end with a fault. -/
theorem InLine.exists_grow (h : InLine g old) (hg : g.setup.CanGrow) (hb : bytes ≠ 0)
    (hlt : bytes < Word.limit) :
    ∃ step request left, g.leastStep = .ok step ∧
      alignedRequest bytes g.config.alignment = .ok request ∧ g.backing.left = .ok left ∧
      ∃ granted g₁, Climbs g (rungs step request left) granted g₁ ∧
        grow g.guard bytes g = .ok granted (countFailure granted g₁) := by
  have ha := h.sound.usable.isPowerOfTwo_alignment
  obtain ⟨step, hs⟩ := h.leastStep_cases.resolve_right fun he => he.2 hg
  obtain ⟨request, hq, -⟩ := alignedRequest_eq_ok bytes ha h.sound.alignment_lt
  have hr := alignedRequest_ne_zero ha h.sound.alignment_lt hb hlt hq
  refine ⟨step, request, _, hs, hq, h.backing_left, ?_⟩
  obtain ⟨granted, g', hrun, g₁, h₁, rfl⟩ := ((grow_climbs h hs (h.backing_alignment ▸ hq) hr
    h.backing_left).mono (fun _ _ h => h) fun _ _ he => he.not_canGrow hg).exists_ok
  exact ⟨granted, g₁, h₁, hrun⟩

/-! ## Allocation -/

/-- A block of so many words does not fit below the end. -/
def Lacks (g : Generation) (words : Nat) : Prop :=
  g.objects.stop < g.objects.top + words * wordSize

/-- Growth for a block of so many words, one after another, each of them granted and none while the
block fits. -/
inductive GrowsFor (words : Nat) : Generation → Generation → Prop
  | refl (g : Generation) : GrowsFor words g g
  | head {g g₁ g₂ : Generation} (hl : g.Lacks words)
    (hg : grow g.guard (Word.mulSat words wordSize) g = .ok true g₁) (h : GrowsFor words g₁ g₂) :
    GrowsFor words g g₂

/-- An allocation grows as long as the block does not fit and growth is granted. It hands out the
block where it fits, and reports that memory ran out where growth is in vain. -/
inductive Tries (words : Nat) (g : Generation) : Except Error Nat → Generation → Prop
  | fits {g₁ g' : Generation} (h : GrowsFor words g g₁) (hf : ¬ g₁.Lacks words)
    (ho : handOut words g₁ = .ok (some g₁.objects.top) g') : Tries words g (.ok g₁.objects.top) g'
  | full {g₁ g' : Generation} (h : GrowsFor words g g₁) (hl : g₁.Lacks words)
    (hg : grow g₁.guard (Word.mulSat words wordSize) g₁ = .ok false g') :
    Tries words g (.error (outOfMemory words g')) g'

theorem Tries.head {r : Except Error Nat} (hl : g.Lacks words)
    (hg : grow g.guard (Word.mulSat words wordSize) g = .ok true g₁) (h : Tries words g₁ r g') :
    Tries words g r g' := by
  cases h with
  | fits h hf ho => exact .fits (.head hl hg h) hf ho
  | full h hl' hg' => exact .full (.head hl hg h) hl' hg'

/-- Growth for a block ends in one generation at most. -/
theorem GrowsFor.unique (h : GrowsFor words g g₁) (h' : GrowsFor words g g₂)
    (hs : g₁.Lacks words → ∀ g', grow g₁.guard (Word.mulSat words wordSize) g₁ ≠ .ok true g')
    (hs' : g₂.Lacks words → ∀ g', grow g₂.guard (Word.mulSat words wordSize) g₂ ≠ .ok true g') :
    g₁ = g₂ := by
  induction h with
  | refl =>
    cases h' with
    | refl => rfl
    | head hl hg _ => exact absurd hg (hs hl _)
  | head hl hg _ ih =>
    cases h' with
    | refl => exact absurd hg (hs' hl _)
    | head _ hg' h' =>
      cases hg.symm.trans hg'
      exact ih h' hs

/-- Memory runs out exactly where the block does not fit and growth is in vain. -/
theorem Tries.error_iff {r : Except Error Nat} (h : Tries words g r g') :
    (∃ e, r = .error e) ↔ ∃ g₁ g₂, GrowsFor words g g₁ ∧ g₁.Lacks words ∧
      grow g₁.guard (Word.mulSat words wordSize) g₁ = .ok false g₂ := by
  cases h with
  | full h hl hg => exact ⟨fun _ => ⟨_, _, h, hl, hg⟩, fun _ => ⟨_, rfl⟩⟩
  | @fits g₁ _ h hf ho =>
    constructor
    · rintro ⟨_, he⟩
      cases he
    · rintro ⟨g₂, _, h₂, hl, hg⟩
      have he : g₁ = g₂ := h.unique h₂ (fun hl => absurd hl hf) fun _ g' hg' => by
        cases hg.symm.trans hg'
      exact absurd (he ▸ hl) hf

/-- A block that does not fit makes the generation grow. -/
theorem makeRoom_of_lacks (h : Within g) (hw : 0 < words) (hl : g.Lacks words) :
    makeRoom words g = grow g.guard (Word.mulSat words wordSize) g := by
  have hf : g.free / wordSize < words := by
    have := h.top_le
    refine (Nat.div_lt_iff_lt_mul (by decide)).2 ?_
    simp only [Lacks, free, LinearSpace.free] at *
    omega
  simp only [makeRoom, run_bind, check_eq_ok_iff.2 hw]
  show (if g.free / wordSize < words then _ else _ : Action Bool) g = _
  rw [if_pos hf]

section Try

variable (tries : Nat)

theorem allocateWithin_of_some {addr : Nat} (ho : handOut words g = .ok (some addr) g₁) :
    allocateWithin words (tries + 1) g = .ok (.ok addr) g₁ := by
  rw [allocateWithin, run_bind, ho]
  rfl

theorem allocateWithin_of_none (ho : handOut words g = .ok none g₁)
    (hg : makeRoom words g₁ = .ok granted g₂) :
    allocateWithin words (tries + 1) g =
      if granted then allocateWithin words tries g₂
      else .ok (.error (outOfMemory words g₂)) g₂ := by
  rw [allocateWithin, run_bind, ho]
  dsimp only
  rw [run_bind, hg]
  cases granted <;> rfl

end Try

/-- Every try but the last is followed by growth, so what is left bounds the number of tries. -/
theorem allocateWithin_climbs (hw : minWords ≤ words) {tries : Nat} (h : InLine g old)
    (hg : g.setup.CanGrow) (ht : g.reserved.stop - g.objects.stop < tries) :
    ∃ r g', allocateWithin words tries g = .ok r g' ∧ Tries words g r g' := by
  induction tries generalizing g old with
  | zero => omega
  | succ tries ih =>
    obtain ⟨r, g₁, hout, ho⟩ := ((handOut_ends h.within).mono (fun _ _ h => h)
      fun _ _ he => Nat.not_le_of_lt he.2 hw).exists_ok
    cases ho with
    | some hc _ =>
      exact ⟨_, g₁, allocateWithin_of_some tries hout,
        .fits (.refl g) (Nat.not_lt.2 hc.le_stop) hout⟩
    | none hl =>
      have hpos : 0 < words := Nat.lt_of_lt_of_le (by decide) hw
      have hne : Word.mulSat words wordSize ≠ 0 :=
        Nat.ne_of_gt (Word.mulSat_pos (Nat.mul_pos hpos (by decide)))
      obtain ⟨_, _, _, _, _, _, granted, g₂, hclimb, hgrow⟩ :=
        h.exists_grow hg hne (Word.mulSat_lt ..)
      have hrun := allocateWithin_of_none tries hout
        ((makeRoom_of_lacks h.within hpos hl).trans hgrow)
      cases granted with
      | false => exact ⟨_, _, hrun, .full (.refl g) hl hgrow⟩
      | true =>
        cases hclimb with
        | granted _ hby =>
          obtain ⟨region, hgrown, -⟩ := hby.exists_grown
          have hlt := hgrown.stop_lt
          have hle := hgrown.stop_le
          have hstop : g₂.objects.stop = region.stop := by rw [hgrown.objects_eq]
          have hres := reserved_eq_of_setup hgrown.setup_eq
          obtain ⟨r, g', hr, htries⟩ := ih (hgrown.inLine h) (hgrown.setup_eq ▸ hg)
            (by rw [hstop, hres]; omega)
          exact ⟨r, g', hrun.trans hr, htries.head hl hgrow⟩

/-- An allocation ends, with a block or because growth was in vain. -/
theorem allocate_climbs (hw : minWords ≤ words) (h : InLine g old) (hg : g.setup.CanGrow) :
    ∃ r g', allocate words g = .ok r g' ∧ Tries words g r g' := by
  have ht : g.reserved.stop - g.objects.stop < g.backing.base.left + 1 := by
    rw [h.base_left, h.end_eq]
    exact Nat.lt_succ_self _
  obtain ⟨r, g', hr, htries⟩ := allocateWithin_climbs hw h hg ht
  refine ⟨r, g', ?_, htries⟩
  unfold allocate
  rw [if_neg (Nat.not_lt.2 hw)]
  exact hr

/-! ## After a run -/

/-- After every run from supplied parts, whichever commits are refused, growth asks for its rungs in
turn: the least step, which is the configured one rounded up and at least one unit for each node, if
it is larger than the request; the request in whole units; and all that is left. Where one is
granted, every part follows by exactly so much. Where none is, everything is left as it was: only
the commits and the failure are counted, and the journal and the events tell of it. So an allocation
ends, and memory runs out exactly where the block does not fit and growth is in vain. -/
theorem Run.grows_by_rungs {s : Setting} {c : Config} {name : String} {level id : Nat}
    {parts : Parts} {r : Region} {ops : List Operation} {out : List Object}
    (hc : (ofParts s c name level id parts).outcome = .result g₀) (hf : parts.Fit r)
    (hk : c.touchCommitted = true → r.stop ≤ Word.limit / 2)
    (hn : c.perNode = true → c.alignment * c.nodeCount s.machine < Word.limit)
    (hr : Run g₀ ops out g) :
    (∀ bytes, bytes ≠ 0 → bytes < Word.limit → ∃ step request left,
      (g.leastStep = .ok step ∧
        step = max ((c.leastGrowth + (c.alignment - 1)) % Word.limit / c.alignment * c.alignment)
          (if c.perNode then c.alignment * c.nodeCount s.machine else 0)) ∧
      (alignedRequest bytes c.alignment = .ok request ∧
        request = if bytes + (c.alignment - 1) < Word.limit
          then (bytes + (c.alignment - 1)) / c.alignment * c.alignment
          else bytes / c.alignment * c.alignment) ∧
      g.backing.left = .ok left ∧ (rungs step request left).length ≤ 3 ∧
      ((∃ n v g', g.backing.ask (rungs step request left) = (some n, v) ∧
          (∃ refused rest, rungs step request left = refused ++ n :: rest ∧
            v = { g.backing with
              base := { g.backing.base with high := g.backing.base.high + n }
              commits := g.backing.commits + refused.length + 1
              refusals := g.backing.refusals + refused.length }) ∧
          grow g.guard bytes g = .ok true g' ∧ GrownBy g n v g') ∨
        ∃ v journal events, g.backing.ask (rungs step request left) = (none, v) ∧
          v = { g.backing with
            commits := g.backing.commits + (rungs step request left).length
            refusals := g.backing.refusals + (rungs step request left).length } ∧
          grow g.guard bytes g = .ok false { g with
            backing := v
            totals := { g.totals with failures := (g.totals.failures + 1) % Word.limit }
            journal, events })) ∧
    ∀ words, minWords ≤ words → ∃ res g', allocate words g = .ok res g' ∧ Tries words g res g' ∧
      ((∃ e, res = .error e) ↔ ∃ g₁ g₂, GrowsFor words g g₁ ∧ g₁.Lacks words ∧
        grow g₁.guard (Word.mulSat words wordSize) g₁ = .ok false g₂) := by
  obtain ⟨committed, hasm⟩ := ofParts_assembled hc
  have hin₀ := hasm.inLine hf
  obtain ⟨region, hin⟩ := hr.inLine hin₀
  have hs := hr.setup_eq hin₀
  have hg : g.setup.CanGrow := hs ▸ hasm.canGrow hf hk hn
  have hconfig : g.config = c := (config_eq_of_setup hs).trans hasm.config_eq
  have hnodes : g.nodes = if c.perNode then c.nodeCount s.machine else 1 :=
    (congrArg Setup.nodes hs).trans hasm.nodes_eq
  have ha : c.alignment.isPowerOfTwo := hconfig ▸ hin.sound.usable.isPowerOfTwo_alignment
  have hal : c.alignment < Word.limit := hconfig ▸ hin.sound.alignment_lt
  refine ⟨fun bytes hb hlt => ?_, fun words hw => ?_⟩
  · obtain ⟨step, request, left, hstep, hrequest, hleft, granted, g₁, hclimb, hrun⟩ :=
      hin.exists_grow hg hb hlt
    have hvalue : step = max
        ((c.leastGrowth + (c.alignment - 1)) % Word.limit / c.alignment * c.alignment)
        (if c.perNode then c.alignment * c.nodeCount s.machine else 0) := by
      rw [(hin.leastStep_eq_ok_iff.1 hstep).2, hconfig, hnodes,
        Rounding.roundUp_of_isPowerOfTwo ha, Word.addWrap]
      split <;> rfl
    rw [hconfig] at hrequest
    refine ⟨step, request, left, ⟨hstep, hvalue⟩, ⟨hrequest, ?_⟩, hleft, length_rungs_le .., ?_⟩
    · exact Except.ok.inj (hrequest.symm.trans (alignedRequest_eq ha hal hlt))
    cases hclimb with
    | granted hask hby => exact .inl ⟨_, _, _, hask, Backing.of_ask_some hask, hrun, hby⟩
    | refused hask journal events =>
      exact .inr ⟨_, journal, events, hask, Backing.of_ask_none hask, hrun⟩
  · obtain ⟨res, g', hrun, htries⟩ := allocate_climbs hw hin hg
    exact ⟨res, g', hrun, htries, htries.error_iff⟩

/-- Three pages, of which only one can be committed. -/
def refusingParts : Parts :=
  { longParts with backing := { longParts.backing with grants := fun n _ _ => n == 0 } }

theorem refusingParts_fit : refusingParts.Fit longRegion :=
  have h := longParts_fit
  ⟨h.shift_eq, h.cut_eq, h.start_eq, h.stop_eq, h.dvd_start, h.dvd_stop, h.stop_lt, h.dvd_high,
    h.start_le_high, h.high_le, h.cardSpan_eq, h.cardCount_eq⟩

/-- All three rungs are refused. -/
theorem Run.grows_by_rungs_refused : ∃ g₀ v journal events,
    (ofParts ⟨⟨0, 1, 1⟩, {}, {}⟩ { smallConfig with leastGrowth := 8192 } "long" 1 0
      refusingParts).outcome = .result g₀ ∧ refusingParts.Fit longRegion ∧
    g₀.backing.ask (rungs 8192 4096 8192) = (none, v) ∧ v.refusals = 3 ∧
    grow g₀.guard 1 g₀ = .ok false
      { g₀ with backing := v, totals := { failures := 1 }, journal, events } := by
  have hnew : ∃ g₀, (ofParts ⟨⟨0, 1, 1⟩, {}, {}⟩ { smallConfig with leastGrowth := 8192 } "long" 1 0
      refusingParts).outcome = .result g₀ ∧ g₀.totals = {} ∧ g₀.backing.left = .ok 8192 ∧
      ∃ v, g₀.backing.ask (rungs 8192 4096 8192) = (none, v) ∧ v.refusals = 3 :=
    ⟨_, rfl, rfl, rfl, _, rfl, rfl⟩
  obtain ⟨g₀, hc, htotals, hleft, v, hask, href⟩ := hnew
  obtain ⟨hgrow, -⟩ := Run.grows_by_rungs hc refusingParts_fit (by decide) (by decide) .start
  obtain ⟨step, request, left, ⟨-, hstep⟩, ⟨-, hrequest⟩, hleft', -, hres⟩ :=
    hgrow 1 (by decide) (by decide)
  obtain rfl : step = 8192 := hstep
  obtain rfl : request = 4096 := hrequest
  obtain rfl := Except.ok.inj (hleft.symm.trans hleft')
  rw [htotals] at hres
  rcases hres with ⟨n, v', g', hask', -⟩ | ⟨v', journal, events, hask', -, hrun⟩
  · cases hask.symm.trans hask'
  · cases hask.symm.trans hask'
    exact ⟨g₀, v, journal, events, hc, refusingParts_fit, hask, href, hrun⟩

end Generation

end Tenured
