import Tenured.Proofs.Generation.Calls
import Tenured.Proofs.Generation.Reports
import Tenured.Proofs.Generation.Safety

/-!
# The books of a generation

A generation keeps books of its size in four ways: it counts what it grows and releases in its
totals, reports it as events, publishes its capacity as figures, and commits it. `Balanced` says
that they agree, after so many growths that failed and after these events. Growth and release enter
the same change everywhere, and nothing else enters anything but a failure:

* `Balanced.grown`, `Balanced.shrunk`: the same change entered everywhere.
* `reports_growBy`, `reports_growFully`, `reports_grow`, `reports_giveBack`: what changes the size.
* `Called.balanced`, `Calls.balanced`: one call, and calls one after another.
* `Run.balances`: every run from a new generation on.
-/

namespace Tenured

/-- The size in kilobytes after an event. An event that tells of growth or release has to go on from
the size before and to add up; others leave the size as it is. -/
def Event.sizeAfter? (kb : Nat) : Event → Option Nat
  | grown _ oldKb byKb newKb => if oldKb = kb ∧ newKb = oldKb + byKb then some newKb else none
  | shrunk _ oldKb byKb newKb => if oldKb = kb ∧ newKb + byKb = oldKb then some newKb else none
  | _ => some kb

theorem Reservation.exists_giveBack_journal (r : Reservation) (bytes : Nat) (h : Host)
    (j : Journal) :
    ∃ j', r.giveBack bytes { h with journal := j } = { r.giveBack bytes h with journal := j' } := by
  unfold giveBack
  dsimp only
  cases r.mapping.giveBack (r.high - bytes) bytes h.memory with
  | ok m => exact ⟨j, rfl⟩
  | error e => exact ⟨_, rfl⟩

theorem Text.kilobytes_add {m n : Nat} (h : 1024 ∣ m) :
    kilobytes (m + n) = kilobytes m + kilobytes n := by
  simp only [kilobytes]
  omega

namespace Generation

open Tenured.Action

/-- Whether a call grows the generation in vain, after every way to do so was tried. -/
def Call.isFailure : Call → Bool
  | grow _ granted => !granted
  | _ => false

variable {start fails n : Nat} {es : List Event} {b b' : Books} {g g' g₀ : Generation}
  {old region : Region} {α : Type}

/-! ## What is entered -/

/-- The totals, the events, the figures and what is committed agree, where `start` was committed at
first. -/
structure Balanced (start fails : Nat) (es : List Event) (b : Books) : Prop where
  growths_eq : b.totals.growths = es.countP Event.isGrowth % Word.limit
  releases_eq : b.totals.releases = es.countP Event.isRelease % Word.limit
  failures_eq : b.totals.failures = fails % Word.limit
  bytes_eq : (start + b.totals.bytesGrown) % Word.limit =
    (b.committed + b.totals.bytesReleased) % Word.limit
  sizes_eq : es.foldlM Event.sizeAfter? (Text.kilobytes start) =
    some (Text.kilobytes b.committed)
  figures_eq : b.keepFigures = true →
    b.figures.currentCapacity = b.committed ∧ b.spaceFigures.capacity = b.committed

/-- An event that tells neither of growth nor of release. -/
theorem Balanced.emitted (h : Balanced start fails es b) {e : Event} (hg : e.isGrowth = false)
    (hr : e.isRelease = false) : Balanced start fails (es ++ [e]) b where
  growths_eq := by simp [hg, h.growths_eq]
  releases_eq := by simp [hr, h.releases_eq]
  failures_eq := h.failures_eq
  bytes_eq := h.bytes_eq
  sizes_eq := by
    have he : e.sizeAfter? (Text.kilobytes b.committed) = some (Text.kilobytes b.committed) := by
      cases e with
      | grown => cases hg
      | shrunk => cases hr
      | _ => rfl
    simp [List.foldlM_append, h.sizes_eq, he]
  figures_eq := h.figures_eq

theorem Balanced.failed (h : Balanced start fails es b) :
    Balanced start (fails + 1) es { b with totals := b.totals.recordFailure } where
  growths_eq := h.growths_eq
  releases_eq := h.releases_eq
  failures_eq := by
    simp only [ResizeTotals.recordFailure, Word.addWrap, h.failures_eq, Nat.mod_add_mod]
  bytes_eq := h.bytes_eq
  sizes_eq := h.sizes_eq
  figures_eq := h.figures_eq

section Change

variable (h : Balanced start fails es b) (hb : 1024 ∣ b.committed) (hn : 1024 ∣ n)
  (hf : b'.keepFigures = true →
    b'.figures.currentCapacity = b'.committed ∧ b'.spaceFigures.capacity = b'.committed)
include h hb hn hf

/-- Growth that is counted, published and reported. -/
theorem Balanced.grown (hc : b'.committed = b.committed + n)
    (ht : b'.totals = b.totals.recordGrowth n .zero) (name : String) :
    Balanced start fails (es ++ [.grown name (Text.kilobytes (b'.committed - n))
      (Text.kilobytes n) (Text.kilobytes b'.committed)]) b' where
  growths_eq := by
    simp [ht, ResizeTotals.recordGrowth, Word.addWrap, h.growths_eq, Event.isGrowth]
  releases_eq := by
    simp [ht, ResizeTotals.recordGrowth, h.releases_eq, Event.isRelease]
  failures_eq := by rw [ht]; exact h.failures_eq
  bytes_eq := by
    have := h.bytes_eq
    simp only [ht, hc, ResizeTotals.recordGrowth, Word.addWrap, Word.limit] at *
    omega
  sizes_eq := by
    have hkb := Text.kilobytes_add (n := n) hb
    simp [List.foldlM_append, h.sizes_eq, hc, hkb, Event.sizeAfter?]
  figures_eq := hf

/-- A release that is counted, published and reported. -/
theorem Balanced.shrunk (hc : b'.committed + n = b.committed)
    (ht : b'.totals = b.totals.recordRelease n .zero) (name : String) :
    Balanced start fails (es ++ [.shrunk name (Text.kilobytes (b'.committed + n))
      (Text.kilobytes n) (Text.kilobytes b'.committed)]) b' where
  growths_eq := by
    simp [ht, ResizeTotals.recordRelease, h.growths_eq, Event.isGrowth]
  releases_eq := by
    simp [ht, ResizeTotals.recordRelease, Word.addWrap, h.releases_eq, Event.isRelease]
  failures_eq := by rw [ht]; exact h.failures_eq
  bytes_eq := by
    have := h.bytes_eq
    simp only [ht, ← hc, ResizeTotals.recordRelease, Word.addWrap, Word.limit] at *
    omega
  sizes_eq := by
    have hkb : Text.kilobytes (b'.committed + n) = Text.kilobytes b'.committed + Text.kilobytes n :=
      Text.kilobytes_add ((Nat.dvd_add_left hn).1 (hc ▸ hb))
    simp [List.foldlM_append, h.sizes_eq, ← hc, hkb, Event.sizeAfter?]
  figures_eq := hf

end Change

/-! ## What follows a change -/

/-- What was published of the capacity, if figures are kept. -/
def Publishes (keep : Bool) (g : Generation) : Prop :=
  keep = true →
    g.capacity = .ok g.figures.currentCapacity ∧ g.capacity = .ok g.spaceFigures.capacity

theorem reports_publishCapacity : Reports publishCapacity es g fun _ es' g' =>
    es' = es ∧ g'.backing = g.backing ∧ g'.totals = g.totals ∧ g'.config = g.config ∧
      Publishes g.config.keepFigures g' := by
  by_cases hk : g.config.keepFigures = true
  · refine reports_congr (y := do
      let g ← get
      let capacity ← g.capacity
      set { g with
        spaceFigures := g.spaceFigures.updateCapacity capacity
        figures := g.figures.update capacity }) (fun l j => ?_) ?_
    · show (if g.config.keepFigures then _ else _ : Action Unit) (g.logged l j) = _
      rw [if_pos hk]
      rfl
    · refine reports_lookUp (fun _ _ => rfl) fun capacity hc => reports_set (fun _ _ => rfl) ?_
      exact ⟨rfl, rfl, rfl, rfl, fun _ => ⟨hc, hc⟩⟩
  · refine reports_get (fun l j => ?_) ?_
    · show (if g.config.keepFigures then _ else _ : Action Unit) = _
      rw [if_neg hk, if_neg hk]
    · rw [if_neg hk]
      exact reports_pure ⟨rfl, rfl, rfl, rfl, fun h => absurd h hk⟩

/-- Books `b` in which these totals were entered, and the capacity published. -/
structure Booked (b : Books) (totals : ResizeTotals) (g : Generation) : Prop where
  committed_eq : g.backing.committed = b.committed
  totals_eq : g.totals = totals
  keepFigures_eq : g.config.keepFigures = b.keepFigures
  publishes : Publishes b.keepFigures g

/-- The other parts follow, and the change is recorded. -/
theorem reports_settle_record {grown : Bool} {f : ResizeTotals → ResizeTotals} {text : String}
    {e : Event} (hb : g.books = b) :
    Reports (do
      settle grown
      publishCapacity
      modify fun g => { g with totals := f g.totals }
      write .debug text
      emit e) es g fun _ es' g' => es' = es ++ [e] ∧ Booked b (f b.totals) g' := by
  refine reports_bind (reports_settle.imp fun _ es₁ g₁ h => ?_)
  obtain ⟨rfl, hb₁⟩ := h
  obtain rfl := hb₁.trans hb
  refine reports_bind (reports_publishCapacity.imp fun _ es₂ g₂ h => ?_)
  obtain ⟨rfl, hback, ht, hconfig, hp⟩ := h
  refine reports_bind (reports_modify (fun _ _ => rfl) ?_)
  refine reports_bind (reports_write (reports_emit ⟨rfl, ?_⟩))
  exact ⟨congrArg Backing.committed hback, congrArg f ht, congrArg Config.keepFigures hconfig, hp⟩

/-- Growth is recorded with the sizes before and after it. -/
theorem reports_settleGrowth {oldHigh : Nat} (hn : n = g.backing.high - oldHigh) :
    Reports (settleGrowth oldHigh) es g fun _ es' g' =>
      es' = es ++ [.grown g.name (Text.kilobytes (g.backing.committed - n)) (Text.kilobytes n)
        (Text.kilobytes g.backing.committed)] ∧
      Booked g.books (g.totals.recordGrowth n .zero) g' := by
  subst hn
  refine reports_get (fun _ _ => rfl) ?_
  dsimp only
  refine reports_ite (fun _ => reports_lift fun _ _ => ?_) fun _ => ?_
  · refine reports_bind (reports_apply.imp fun _ es₁ g₁ h => ?_)
    obtain ⟨rfl, hb⟩ := h
    exact reports_settle_record (f := fun t => t.recordGrowth _ .zero) hb
  · exact reports_settle_record (f := fun t => t.recordGrowth _ .zero) rfl

/-- What is published is what is committed, where the parts are in line. -/
theorem Booked.figures_eq {totals : ResizeTotals} (h : Booked b totals g) (hin : InLine g region) :
    g.books.keepFigures = true → g.figures.currentCapacity = g.backing.committed ∧
      g.spaceFigures.capacity = g.backing.committed := by
  intro hk
  obtain ⟨h₁, h₂⟩ := h.publishes (h.keepFigures_eq.symm.trans hk)
  rw [hin.capacity] at h₁ h₂
  rw [hin.backing_committed]
  exact ⟨(Except.ok.inj h₁).symm, (Except.ok.inj h₂).symm⟩

theorem InLine.kilobyte_dvd (h : InLine g region) : 1024 ∣ g.backing.committed := by
  rw [h.backing_committed]
  exact Nat.dvd_trans (by decide) (h.sound.page_dvd h.dvd_size)

/-! ## Growth -/

/-- A commit that was granted is entered everywhere once the other parts have followed. -/
theorem reports_granted (h : InLine g old) (hb : Balanced start fails es g.books) {v : Backing}
    (hv : Behind g old region v) (hs : region.stop = old.stop + n) (hlt : old.stop < region.stop) :
    Reports (settleGrowth g.backing.high) es { g with backing := v } fun _ es' g' =>
      Balanced start fails es' g'.books := by
  have hhigh : v.high = region.stop := hv.committed.backing_high
  have hold := h.backing_high
  have hc : v.committed = g.backing.committed + n := by
    have hsize : v.committed = region.size := hv.committed.backing_committed
    have := hv.committed.start_eq.trans h.start_eq.symm
    have := old.start_le_stop
    rw [hsize, h.backing_committed, Region.size, Region.size]
    omega
  refine (reports_settleGrowth (n := n) ?_).imp_of_ok fun _ es' g' hr he => ?_
  · show n = v.high - g.backing.high
    omega
  obtain ⟨rfl, hbooked⟩ := he
  have hin := ((settleGrowth_ends hv hlt).of_ok hr).inLine h
  have hcommitted : g'.backing.committed = v.committed := hbooked.committed_eq
  have hn : 1024 ∣ n := (Nat.dvd_add_right h.kilobyte_dvd).1 (hc ▸ hcommitted ▸ hin.kilobyte_dvd)
  show Balanced start fails (es ++ [.grown g.name (Text.kilobytes (v.committed - n))
    (Text.kilobytes n) (Text.kilobytes v.committed)]) g'.books
  rw [← hcommitted] at hc ⊢
  exact hb.grown h.kilobyte_dvd hn (hbooked.figures_eq hin) hc hbooked.totals_eq g.name

/-- A commit, and what is done after it. Where it is refused, only the counts change. -/
theorem reports_commit (h : InLine g old) (hb : Balanced start fails es g.books) {bytes : Nat}
    {k : Generation → Bool → Action α} {Q : α → List Event → Generation → Prop}
    (hk : ∀ l j granted, k (g.logged l j) granted = k g granted)
    (hgranted : ∀ v : Backing,
      (Reports (settleGrowth g.backing.high) es { g with backing := v } fun _ es' g' =>
        Balanced start fails es' g'.books) → Reports (k g true) es { g with backing := v } Q)
    (hrefused : ∀ v : Backing, ({ g with backing := v } : Generation).books = g.books →
      Reports (k g false) es { g with backing := v } Q) :
    Reports (do
      let g ← get
      let (granted, backing) := g.backing.commit bytes
      set { g with backing }
      k g granted) es g Q := by
  have run : ∀ {granted v}, g.backing.commit bytes = (granted, v) → ∀ l j, (do
      let g ← get
      let (granted, backing) := g.backing.commit bytes
      set { g with backing }
      k g granted : Action α) (g.logged l j) =
        k g granted (({ g with backing := v } : Generation).logged l j) := by
    intro granted v hc l j
    show (match g.backing.commit bytes with
      | (granted, backing) => do
        set { g.logged l j with backing }
        k (g.logged l j) granted : Action α) (g.logged l j) = _
    rw [hc]
    show k (g.logged l j) granted _ = _
    rw [hk]
    rfl
  rcases h.commit_cases bytes with ⟨region, v, hc, hs, hlt, hbehind⟩ | ⟨v, hc, -, ha⟩
  · exact reports_of_forall_eq (run hc) rfl (hgranted v (reports_granted h hb hbehind hs hlt))
  · refine reports_of_forall_eq (run hc) rfl (hrefused v ?_)
    show Books.mk v.base.committed _ _ _ _ = _
    rw [show v.base = g.backing.base from ha.base_eq]
    rfl

theorem reports_growBy (h : InLine g old) (hb : Balanced start fails es g.books) {bytes : Nat} :
    Reports (growBy g.guard bytes) es g fun _ es' g' => Balanced start fails es' g'.books := by
  refine reports_checkGuard ?_
  by_cases hz : bytes = 0
  · rw [if_pos hz]
    exact reports_pure hb
  rw [if_neg hz]
  refine reports_commit (k := fun g granted => do
    if granted then settleGrowth g.backing.high
    return granted) h hb (fun _ _ _ => rfl) (fun v hgrowth => ?_) fun v hv => ?_
  · exact reports_bind (hgrowth.imp fun _ _ _ hb' => reports_pure hb')
  · exact reports_pure (hv.symm ▸ hb)

theorem reports_growFully (h : InLine g old) (hb : Balanced start fails es g.books) :
    Reports (growFully g.guard) es g fun _ es' g' => Balanced start fails es' g'.books := by
  refine reports_checkGuard ?_
  refine reports_lookUp (fun _ _ => rfl) fun remaining _ => ?_
  by_cases hz : remaining = 0
  · simp only [if_pos hz]
    exact reports_get (f := fun _ => pure false) (fun _ _ => rfl) (reports_pure hb)
  simp only [if_neg hz]
  refine reports_commit (k := fun g granted => do
    if granted then
      settleGrowth g.backing.high
    else
      write .warn s!"{g.name}: grow to reserve failed"
      emit (.growthFailed g.name remaining g.backing.committed (← g.backing.reserved))
    return granted) h hb (fun _ _ _ => rfl) (fun v hgrowth => ?_) fun v hv => ?_
  · exact reports_bind (hgrowth.imp fun _ _ _ hb' => reports_pure hb')
  · refine reports_bind (reports_write (reports_lift fun reserved _ => ?_))
    refine reports_bind (reports_emit (reports_pure ?_))
    show Balanced start fails _ ({ g with backing := v } : Generation).books
    exact (hv.symm ▸ hb).emitted rfl rfl

theorem InLine.growBy (h : InLine g old) {bytes : Nat} {granted : Bool}
    (hr : Generation.growBy g.guard bytes g = .ok granted g') :
    (∃ region, InLine g' region) ∧ g'.guard = g.guard := by
  have he := (Called.growBy hr).effect h
  exact ⟨he.inLine h, congrArg (fun s => Guard.mk s.id) he.setup_eq⟩

/-- Growth from the second rung on. Only where all rungs fail is a failure counted. -/
theorem reports_growBy_or_growFully (h : InLine g old) (hb : Balanced start fails es g.books)
    {request : Nat} :
    Reports (do
      if ← growBy g.guard request then return true
      if ← growFully g.guard then return true
      modify fun g => { g with totals := g.totals.recordFailure }
      return false) es g fun granted es' g' =>
        Balanced start (if granted then fails else fails + 1) es' g'.books := by
  refine reports_bind ((reports_growBy h hb).imp_of_ok fun granted es₁ g₁ hr hb₁ => ?_)
  refine reports_ite (fun _ => reports_pure hb₁) fun _ => ?_
  obtain ⟨⟨region₁, hin₁⟩, hguard⟩ := h.growBy hr
  rw [← hguard]
  refine reports_bind ((reports_growFully hin₁ hb₁).imp fun granted es₂ g₂ hb₂ => ?_)
  refine reports_ite (fun _ => reports_pure hb₂) fun _ => ?_
  exact reports_bind (reports_modify (fun _ _ => rfl) (reports_pure hb₂.failed))

theorem reports_grow (h : InLine g old) (hb : Balanced start fails es g.books) {bytes : Nat} :
    Reports (grow g.guard bytes) es g fun granted es' g' =>
      Balanced start (if granted then fails else fails + 1) es' g'.books := by
  refine reports_checkGuard ?_
  refine reports_lookUp (fun _ _ => rfl) fun step _ => ?_
  refine reports_lookUp (fun _ _ => rfl) fun request _ => ?_
  refine reports_get (fun _ _ => rfl) ?_
  dsimp only
  refine reports_ite (fun _ => ?_) fun _ => reports_growBy_or_growFully h hb
  refine reports_bind ((reports_growBy h hb).imp_of_ok fun granted es₁ g₁ hr hb₁ => ?_)
  refine reports_ite (fun _ => reports_pure hb₁) fun _ => ?_
  obtain ⟨⟨region₁, hin₁⟩, hguard⟩ := h.growBy hr
  rw [← hguard]
  exact reports_growBy_or_growFully hin₁ hb₁

/-! ## Release -/

/-- Memory given back, and what is done after that. -/
theorem reports_release (hle : n ≤ g.backing.committed) (hz : n ≠ 0)
    {k : Generation → Backing × Host → Action α} {Q : α → List Event → Generation → Prop}
    (hk : ∀ l j v h h', k (g.logged l j) (v, h) = k g (v, h'))
    (h : ∀ g₁ v host, g₁.books = { g.books with committed := v.committed } →
      v.committed + n = g.backing.committed → Reports (k g (v, host)) es g₁ Q) :
    Reports (do
      let g ← get
      let r ← g.backing.release n g.toHost
      set { g with toHost := r.2, backing := r.1 }
      k g r) es g Q := by
  have run : ∀ (g : Generation) r, g.backing.release n g.toHost = .ok r → (do
      let g ← get
      let r ← g.backing.release n g.toHost
      set { g with toHost := r.2, backing := r.1 }
      k g r : Action α) g = k g r { g with toHost := r.2, backing := r.1 } := by
    intro g r hr
    show (liftM (g.backing.release n g.toHost) >>= _ : Action α) g = _
    rw [hr]
    rfl
  refine reports_of_eq (run g _ (Backing.release_eq_ok hle hz)) (fun l j => ?_) (h _ _ _ rfl ?_)
  · -- What could not be given back is noted in the journal, whichever it is.
    obtain ⟨j', hj⟩ := g.backing.base.exists_giveBack_journal n g.toHost j
    refine ⟨j', (run (g.logged l j) _ (Backing.release_eq_ok hle hz)).trans ?_⟩
    rw [hk l j _ _ (g.backing.base.giveBack n g.toHost)]
    show k g _ { g with
      toHost := g.backing.base.giveBack n { g.toHost with journal := j }
      backing := _
      events := l } = _
    rw [hj]
    rfl
  · have hle : n ≤ g.backing.base.high - g.backing.base.start := hle
    show g.backing.base.high - n - g.backing.base.start + n =
      g.backing.base.high - g.backing.base.start
    omega

theorem reports_giveBack (h : InLine g old) (hb : Balanced start fails es g.books) {bytes : Nat} :
    Reports (giveBack g.guard bytes) es g fun _ es' g' => Balanced start fails es' g'.books := by
  -- The figures show what is committed once all parts are in line again, as they are at the end.
  have hends : Reports (giveBack g.guard bytes) es g fun _ es' g' =>
      ∀ region, InLine g' region → Balanced start fails es' g'.books := by
    refine reports_checkGuard ?_
    refine reports_lookUp (fun _ _ => rfl) fun size hsize => ?_
    by_cases hz : size = 0
    · simp only [if_pos hz]
      exact reports_get (f := fun _ => pure ()) (fun _ _ => rfl) (reports_pure fun _ _ => hb)
    simp only [if_neg hz]
    refine reports_lookUp (fun _ _ => rfl) fun _ hc => ?_
    have hle : size ≤ g.backing.committed := (check_eq_ok_iff.1 hc).1
    refine reports_release hle hz (fun _ _ _ _ _ => rfl) fun g₁ v host hb₁ hv => ?_
    refine (reports_settle_record (f := fun t => t.recordRelease size .zero) hb₁).imp
      fun _ es' g' he region hin => ?_
    obtain ⟨rfl, hbooked⟩ := he
    have hcommitted : g'.backing.committed = v.committed := hbooked.committed_eq
    have hn : 1024 ∣ size := by
      rw [← hcommitted] at hv
      exact (Nat.dvd_add_right hin.kilobyte_dvd).1 (hv ▸ h.kilobyte_dvd)
    show Balanced start fails (es ++ [.shrunk g.name (Text.kilobytes (v.committed + size))
      (Text.kilobytes size) (Text.kilobytes v.committed)]) g'.books
    rw [← hcommitted] at hv ⊢
    exact hb.shrunk h.kilobyte_dvd hn (hbooked.figures_eq hin) hv hbooked.totals_eq g.name
  refine hends.imp_of_ok fun _ es' g' hr hb' => ?_
  obtain ⟨region, hin⟩ := ((Called.giveBack hr).effect h).inLine h
  exact hb' region hin

/-! ## Calls and runs -/

theorem Silent.balanced {x : Action α} (hx : Silent x es g)
    (hb : Balanced start fails es g.books) :
    Reports x es g fun _ es' g' => Balanced start fails es' g'.books :=
  hx.imp fun _ _ _ he => he.1 ▸ he.2 ▸ hb

/-- A call keeps the books balanced. Whatever the log and the journal are, it does the same, and the
events that it reports are recorded in that log. -/
theorem Called.balanced {c : Call} (hc : Called g c g') (h : InLine g old)
    (hb : Balanced start fails es g.books) :
    ∃ more : List (Int × Event),
      Balanced start (if c.isFailure then fails + 1 else fails) (es ++ more.map Prod.snd) g'.books ∧
      g'.events = more.foldl EventLog.record g.events ∧
      ∀ l j, ∃ j', Called (g.logged l j) c (g'.logged (more.foldl EventLog.record l) j') := by
  cases hc with
  | handOut hr =>
    obtain ⟨more, hb', he, hl⟩ := (Silent.balanced reports_handOut hb).of_ok hr
    exact ⟨more, hb', he, fun l j => (hl l j).imp fun _ => .handOut⟩
  | touchAhead hr =>
    obtain ⟨more, hb', he, hl⟩ := (Silent.balanced reports_touchAhead hb).of_ok hr
    exact ⟨more, hb', he, fun l j => (hl l j).imp fun _ => .touchAhead⟩
  | @grow bytes granted _ hr =>
    obtain ⟨more, hb', he, hl⟩ := (reports_grow h hb).of_ok hr
    refine ⟨more, ?_, he, fun l j => (hl l j).imp fun _ => .grow⟩
    cases granted <;> exact hb'
  | growBy hr =>
    obtain ⟨more, hb', he, hl⟩ := (reports_growBy h hb).of_ok hr
    exact ⟨more, hb', he, fun l j => (hl l j).imp fun _ => .growBy⟩
  | growFully hr =>
    obtain ⟨more, hb', he, hl⟩ := (reports_growFully h hb).of_ok hr
    exact ⟨more, hb', he, fun l j => (hl l j).imp fun _ => .growFully⟩
  | giveBack hr =>
    obtain ⟨more, hb', he, hl⟩ := (reports_giveBack h hb).of_ok hr
    exact ⟨more, hb', he, fun l j => (hl l j).imp fun _ => .giveBack⟩
  | write hr =>
    obtain ⟨more, hb', he, hl⟩ := (Silent.balanced (reports_write ⟨rfl, rfl⟩) hb).of_ok hr
    exact ⟨more, hb', he, fun l j => (hl l j).imp fun _ => .write⟩
  | @emit e _ hgrowth hrelease hr =>
    have hemit : Reports (Generation.emit e) es g fun _ es' g' =>
        Balanced start fails es' g'.books :=
      reports_emit (hb.emitted hgrowth hrelease)
    obtain ⟨more, hb', he, hl⟩ := hemit.of_ok hr
    exact ⟨more, hb', he, fun l j => (hl l j).imp fun _ => .emit hgrowth hrelease⟩
  | store addr w =>
    exact ⟨[], (List.append_nil es).symm ▸ hb, rfl, fun l j => ⟨j, .store addr w⟩⟩

/-- Calls one after another keep the books balanced. -/
theorem Calls.balanced {cs : List Call} (h : Calls g₀ cs g) (h₀ : InLine g₀ old)
    (hb : Balanced start 0 [] g₀.books) :
    ∃ es : List (Int × Event),
      Balanced start (cs.countP Call.isFailure) (es.map Prod.snd) g.books ∧
      g.events = es.foldl EventLog.record g₀.events ∧
      ∀ l j, ∃ j', Calls (g₀.logged l j) cs (g.logged (es.foldl EventLog.record l) j') := by
  induction h with
  | start => exact ⟨[], hb, rfl, fun l j => ⟨j, .start⟩⟩
  | @tail cs c g g' h hc ih =>
    obtain ⟨es, hb₁, he, hl⟩ := ih
    obtain ⟨region, hin⟩ := h.inLine h₀
    obtain ⟨more, hb₂, he', hl'⟩ := hc.balanced hin hb₁
    refine ⟨es ++ more, ?_, ?_, fun l j => ?_⟩
    · have hcount : (cs ++ [c]).countP Call.isFailure =
          if c.isFailure then cs.countP Call.isFailure + 1 else cs.countP Call.isFailure := by
        rw [List.countP_append, List.countP_singleton]
        split <;> rfl
      rw [hcount, List.map_append]
      exact hb₂
    · rw [List.foldl_append, ← he]
      exact he'
    · obtain ⟨j', hcs⟩ := hl l j
      obtain ⟨j'', hcalled⟩ := hl' _ j'
      rw [List.foldl_append]
      exact ⟨j'', hcs.tail hcalled⟩

section New

variable {sys : AddressSpace} {s : Setting} {c : Config} {name : String} {level id : Nat}
  (hc : (create sys s c name level id).outcome = .result g₀)
include hc

theorem create_balanced : ∃ region : Region, InLine g₀ region ∧ g₀.events = s.events ∧
    Balanced region.size 0 [] g₀.books := by
  obtain ⟨base, heap, committed, j, -, -, -, hf, hasm⟩ := create_assembled hc
  have hin := hasm.inLine hf
  have hcommitted : g₀.books.committed = committed.size := hin.backing_committed
  have htotals : g₀.books.totals = {} := hasm.totals_eq
  refine ⟨committed, hin, hasm.events_eq, ?_, ?_, ?_, ?_, ?_, fun _ => ?_⟩
  · rw [htotals]; rfl
  · rw [htotals]; rfl
  · rw [htotals]; rfl
  · rw [htotals, hcommitted]
  · rw [hcommitted]; rfl
  · rw [hcommitted]; exact hasm.figures_eq

variable {ops : List Operation} {out : List Object} (hr : Run g₀ ops out g)
include hr

/-- A run from a new generation on is made of calls, and by whatever calls its end is reached, the
books balance: with the events that these calls report, each at a moment, whichever log there is,
and with the calls to grow that were in vain. The sizes that the events tell of are the capacities
in units of 1024 bytes. -/
theorem Run.balances : (∃ cs, Calls g₀ cs g ∧ cs.flatMap Call.blocks = out) ∧
    ∀ cs, Calls g₀ cs g → ∃ (start capacity : Nat) (es : List (Int × Event)),
      g₀.capacity = .ok start ∧ g.capacity = .ok capacity ∧
      g.events = es.foldl EventLog.record s.events ∧
      (∀ l j, ∃ j', Calls (g₀.logged l j) cs (g.logged (es.foldl EventLog.record l) j')) ∧
      (start + g.totals.bytesGrown) % Word.limit =
        (capacity + g.totals.bytesReleased) % Word.limit ∧
      (g.totals.growths = (es.map Prod.snd).countP Event.isGrowth % Word.limit ∧
        g.totals.releases = (es.map Prod.snd).countP Event.isRelease % Word.limit ∧
        g.totals.failures = cs.countP Call.isFailure % Word.limit) ∧
      (es.map Prod.snd).foldlM Event.sizeAfter? (start / 1024) = some (capacity / 1024) ∧
      (c.keepFigures = true →
        g.figures.currentCapacity = capacity ∧ g.spaceFigures.capacity = capacity) := by
  obtain ⟨region₀, hin₀, hevents, hb₀⟩ := create_balanced hc
  refine ⟨hr.calls, fun cs hcs => ?_⟩
  obtain ⟨region, hin⟩ := hcs.inLine hin₀
  obtain ⟨es, hb, he, hl⟩ := hcs.balanced hin₀ hb₀
  have hcommitted : g.books.committed = region.size := hin.backing_committed
  have hconfig : g.config = c := by
    obtain ⟨_, hnew⟩ := create_new hc
    exact (config_eq_of_setup (hcs.setup_eq hin₀)).trans hnew.config_eq
  refine ⟨region₀.size, region.size, es, hin₀.capacity, hin.capacity, hevents ▸ he, hl, ?_,
    ⟨hb.growths_eq, hb.releases_eq, hb.failures_eq⟩, ?_, fun hk => ?_⟩
  · rw [← hcommitted]; exact hb.bytes_eq
  · rw [← hcommitted]; exact hb.sizes_eq
  · rw [← hcommitted]; exact hb.figures_eq (show g.config.keepFigures = true from hconfig.symm ▸ hk)

end New

/-- Growth, growth in vain, and a release of what was added. -/
theorem Run.balances_small : ∃ (g₀ : Generation) (out : List Object) (g : Generation)
    (cs : List Call) (capacity : Nat) (es : List (Int × Event)),
    (create (.ofBase 65536) ⟨⟨0, 1, 1⟩, {}, {}⟩ { smallConfig with keepFigures := true }
      "small" 1 0).outcome = .result g₀ ∧
    Run g₀ [.grow 4096, .grow 4096, .resize 0] out g ∧ Calls g₀ cs g ∧
    g.capacity = .ok capacity ∧ g.events = es.foldl EventLog.record {} ∧
    (4096 + g.totals.bytesGrown) % Word.limit = (capacity + g.totals.bytesReleased) % Word.limit ∧
    (es.map Prod.snd).foldlM Event.sizeAfter? 4 = some (capacity / 1024) ∧
    g.figures.currentCapacity = capacity := by
  have hnew : ∃ g₀, (create (.ofBase 65536) ⟨⟨0, 1, 1⟩, {}, {}⟩
      { smallConfig with keepFigures := true } "small" 1 0).outcome = .result g₀ ∧
      g₀.capacity = .ok 4096 := ⟨_, rfl, rfl⟩
  obtain ⟨g₀, hc, hstart⟩ := hnew
  obtain ⟨region, hnew⟩ := create_new hc
  have hops : ∀ op ∈ [Operation.grow 4096, .grow 4096, .resize 0], op.Unconditional := by
    simp [Operation.Unconditional]
  obtain ⟨out, g, hr⟩ := Run.exists_append hnew.toInLine (hnew.canGrow_of_false rfl rfl)
    hnew.own.size_eq .start hops
  obtain ⟨⟨cs, hcs, -⟩, hall⟩ := Run.balances hc hr
  obtain ⟨start, capacity, es, hstart', hcap, hevents, -, hbytes, -, hsizes, hfigures⟩ :=
    hall cs hcs
  obtain rfl := Except.ok.inj (hstart.symm.trans hstart')
  exact ⟨g₀, _, g, cs, capacity, es, hc, hr, hcs, hcap, hevents, hbytes, hsizes, (hfigures rfl).1⟩

end Generation

end Tenured
