import Tenured.Generation.Allocation

/-!
# What actions report

No action looks at the event log or the journal. `Reports x es g Q` says of an action `x`, done to
`g` after the events `es`, that if it has a result, some more events were reported meanwhile, each
at a moment, and that `Q` holds then of the result, of all these events and of the generation; and
that, whatever log and journal `g` had, `x` would have come to the same, with those events recorded
in that log. So the events that an action reports are a matter of the action alone, whether or not a
log keeps them.

There is one lemma for each way to put actions together, as for `Action.Ends`, and one for each
action that reports nothing: `reports_settle`, `reports_handOut`, `reports_touchAhead`.
-/

namespace Tenured

namespace Generation

/-- The generation with this event log and this journal. -/
def logged (l : EventLog) (j : Journal) (g : Generation) : Generation :=
  { g with events := l, journal := j }

/-- How much a generation has committed, and what it keeps of that. -/
structure Books where
  committed : Nat
  totals : ResizeTotals
  keepFigures : Bool
  figures : GenerationFigures
  spaceFigures : SpaceFigures

/-- The books of a generation. -/
def books (g : Generation) : Books :=
  ⟨g.backing.committed, g.totals, g.config.keepFigures, g.figures, g.spaceFigures⟩

end Generation

namespace Action

variable {α β : Type}

/-- After the events `es`, the action reports more of them, and `Q` holds of what it ends in. With
any other log and journal it ends in the same, and the log has those events recorded in it. -/
def Reports (x : Action α) (es : List Event) (g : Generation)
    (Q : α → List Event → Generation → Prop) : Prop :=
  ∀ a g', x g = .ok a g' → ∃ more : List (Int × Event), Q a (es ++ more.map Prod.snd) g' ∧
    ∀ l j, ∃ j', x (g.logged l j) = .ok a (g'.logged (more.foldl EventLog.record l) j')

/-- The action reports nothing and leaves the books alone. -/
abbrev Silent (x : Action α) (es : List Event) (g : Generation) : Prop :=
  Reports x es g fun _ es' g' => es' = es ∧ g'.books = g.books

variable {x : Action α} {es : List Event} {g g₁ : Generation}
  {Q : α → List Event → Generation → Prop}

/-- The events that were reported are recorded in the log that the generation has. -/
theorem Reports.of_ok (h : Reports x es g Q) {a : α} {g' : Generation} (hx : x g = .ok a g') :
    ∃ more : List (Int × Event), Q a (es ++ more.map Prod.snd) g' ∧
      g'.events = more.foldl EventLog.record g.events ∧
      ∀ l j, ∃ j', x (g.logged l j) = .ok a (g'.logged (more.foldl EventLog.record l) j') := by
  obtain ⟨more, hq, hlog⟩ := h a g' hx
  obtain ⟨j', hl⟩ := hlog g.events g.journal
  have hl : x g = .ok a (g'.logged (more.foldl EventLog.record g.events) j') := hl
  injection hx.symm.trans hl with _ hg
  exact ⟨more, hq, congrArg Generation.events hg, hlog⟩

/-- Weaker conditions on the results, of which it is known that the action has them. -/
theorem Reports.imp_of_ok {Q' : α → List Event → Generation → Prop} (h : Reports x es g Q)
    (hQ : ∀ a es' g', x g = .ok a g' → Q a es' g' → Q' a es' g') : Reports x es g Q' := by
  intro a g' hx
  obtain ⟨more, hq, hlog⟩ := h a g' hx
  exact ⟨more, hQ _ _ _ hx hq, hlog⟩

theorem Reports.imp {Q' : α → List Event → Generation → Prop} (h : Reports x es g Q)
    (hQ : ∀ a es' g', Q a es' g' → Q' a es' g') : Reports x es g Q' :=
  h.imp_of_ok fun a es' g' _ hq => hQ a es' g' hq

/-! ## Actions put together -/

theorem run_bind {f : α → Action β} : (x >>= f) g = match x g with
    | .ok a g' => f a g'
    | .error e g' => .error e g' := by
  show EStateM.bind x f g = _
  unfold EStateM.bind
  cases x g <;> rfl

theorem reports_pure {a : α} (h : Q a es g) : Reports (pure a) es g Q := by
  intro b g' hx
  cases hx
  exact ⟨[], (List.append_nil es).symm ▸ h, fun l j => ⟨j, rfl⟩⟩

theorem reports_bind {f : α → Action β} {Q : β → List Event → Generation → Prop}
    (h : Reports x es g fun a es' g' => Reports (f a) es' g' Q) : Reports (x >>= f) es g Q := by
  intro b g'' hb
  rw [run_bind] at hb
  cases hx : x g with
  | error e g' =>
    rw [hx] at hb
    cases hb
  | ok a g' =>
    rw [hx] at hb
    obtain ⟨more, hf, hlog⟩ := h a g' hx
    obtain ⟨more', hq, hlog'⟩ := hf b g'' hb
    refine ⟨more ++ more', ?_, fun l j => ?_⟩
    · rw [List.map_append, ← List.append_assoc]
      exact hq
    obtain ⟨j', hl⟩ := hlog l j
    obtain ⟨j'', hl'⟩ := hlog' (more.foldl EventLog.record l) j'
    refine ⟨j'', ?_⟩
    rw [run_bind, hl, List.foldl_append]
    exact hl'

/-- An action that does what another one does from another generation on. The two may write
different lines. -/
theorem reports_of_eq {y : Action α} (hx : x g = y g₁)
    (h : ∀ l j, ∃ j', x (g.logged l j) = y (g₁.logged l j')) (hy : Reports y es g₁ Q) :
    Reports x es g Q := by
  intro a g' ha
  obtain ⟨more, hq, hlog⟩ := hy a g' (hx.symm.trans ha)
  refine ⟨more, hq, fun l j => ?_⟩
  obtain ⟨j', hl⟩ := h l j
  obtain ⟨j'', hl'⟩ := hlog l j'
  exact ⟨j'', hl.trans hl'⟩

/-- An action that does what another one does from another generation on, with any log and
journal. -/
theorem reports_of_forall_eq {y : Action α}
    (h : ∀ l j, x (g.logged l j) = y (g₁.logged l j)) (hg : g₁.logged g.events g.journal = g₁)
    (hy : Reports y es g₁ Q) : Reports x es g Q :=
  reports_of_eq ((h g.events g.journal).trans (congrArg y hg)) (fun l j => ⟨j, h l j⟩) hy

/-- An action that does what another one does, with any log and journal. -/
theorem reports_congr {y : Action α} (h : ∀ l j, x (g.logged l j) = y (g.logged l j))
    (hy : Reports y es g Q) : Reports x es g Q :=
  reports_of_forall_eq h rfl hy

/-- An action that looks at anything but the log and the journal. -/
theorem reports_get {f : Generation → Action α} (hf : ∀ l j, f (g.logged l j) = f g)
    (h : Reports (f g) es g Q) : Reports (get >>= f) es g Q :=
  reports_congr (fun l j => congrFun (hf l j) _) h

theorem reports_lift {r : Except Fault β} {f : β → Action α}
    (h : ∀ b, r = .ok b → Reports (f b) es g Q) : Reports (liftM r >>= f) es g Q := by
  intro a g' ha
  cases r with
  | ok b => exact h b rfl a g' ha
  | error e => cases ha

theorem reports_modify {f : Generation → Generation}
    {Q : Unit → List Event → Generation → Prop}
    (hf : ∀ l j, f (g.logged l j) = (f g).logged l j) (h : Q () es (f g)) :
    Reports (modify f) es g Q := by
  intro a g' ha
  cases ha
  refine ⟨[], (List.append_nil es).symm ▸ h, fun l j => ⟨j, ?_⟩⟩
  exact congrArg (EStateM.Result.ok ()) (hf l j)

/-- An action that looks something up first. -/
theorem reports_lookUp {r : Generation → Except Fault β} {f : Generation → β → Action α}
    (hr : ∀ l j, r (g.logged l j) = r g)
    (h : ∀ b, r g = .ok b → Reports (do let g ← get; f g b) es g Q) :
    Reports (do let g ← get; let b ← r g; f g b) es g Q := by
  have run : ∀ g, (do let g ← get; let b ← r g; f g b : Action α) g =
      (liftM (r g) >>= f g : Action α) g := fun _ => rfl
  cases hb : r g with
  | error e =>
    intro a g' ha
    rw [run, hb] at ha
    cases ha
  | ok b =>
    refine reports_congr (fun l j => ?_) (h b hb)
    rw [run, hr l j, hb]
    rfl

theorem reports_set_bind {f : Generation → Generation} {k : Generation → Action α}
    (hf : ∀ l j, f (g.logged l j) = (f g).logged l j) (hk : ∀ l j, k (g.logged l j) = k g)
    (h : Reports (k g) es (f g) Q) : Reports (do let g ← get; set (f g); k g) es g Q := by
  refine reports_of_forall_eq (fun l j => ?_) (hf g.events g.journal).symm h
  show k (g.logged l j) (f (g.logged l j)) = _
  rw [hf, hk]

theorem reports_set {f : Generation → Generation} {Q : Unit → List Event → Generation → Prop}
    (hf : ∀ l j, f (g.logged l j) = (f g).logged l j) (h : Q () es (f g)) :
    Reports (do let g ← get; set (f g)) es g Q :=
  reports_modify hf h

/-- Actions that report nothing, one after the other. -/
theorem Silent.bind {f : α → Action β} (hx : Silent x es g)
    (hf : ∀ a g', Silent (f a) es g') : Silent (x >>= f) es g := by
  refine reports_bind (hx.imp fun a es' g' h => ?_)
  obtain ⟨rfl, hb⟩ := h
  exact (hf a g').imp fun _ _ _ h' => ⟨h'.1, h'.2.trans hb⟩

theorem reports_ite {p : Prop} [Decidable p] {y : Action α} (hx : p → Reports x es g Q)
    (hy : ¬ p → Reports y es g Q) : Reports (if p then x else y) es g Q := by
  split
  · exact hx ‹_›
  · exact hy ‹_›

theorem reports_write {level : Level} {text : String}
    {Q : Unit → List Event → Generation → Prop}
    (h : Q () es { g with journal := g.journal.write level text }) :
    Reports (Generation.write level text) es g Q := by
  intro a g' ha
  cases ha
  exact ⟨[], (List.append_nil es).symm ▸ h, fun l j => ⟨j.write level text, rfl⟩⟩

theorem reports_emit {e : Event} {Q : Unit → List Event → Generation → Prop}
    (h : Q () (es ++ [e])
      { g with
        journal := g.events.forward g.clock e g.journal
        events := g.events.record (g.clock, e) }) :
    Reports (Generation.emit e) es g Q := by
  intro a g' ha
  cases ha
  exact ⟨[(g.clock, e)], h, fun l j => ⟨l.forward g.clock e j, rfl⟩⟩

end Action

namespace Generation

open Tenured.Action

variable {g : Generation} {es : List Event}

/-! ## Actions that report nothing -/

theorem run_checkGuard (g : Generation) : checkGuard g.guard g = .ok () g := by
  show (liftM (check (g.id = g.id) .foreignGuard) : Action Unit) g = _
  rw [check_eq_ok_iff.2 rfl]
  rfl

theorem reports_checkGuard {α : Type} {f : Unit → Action α}
    {Q : α → List Event → Generation → Prop} (h : Reports (f ()) es g Q) :
    Reports (checkGuard g.guard >>= f) es g Q := by
  refine reports_congr (fun l j => ?_) h
  have hg : checkGuard g.guard (g.logged l j) = .ok () (g.logged l j) :=
    run_checkGuard (g.logged l j)
  rw [run_bind, hg]

theorem reports_apply {u : Update} : Silent u.apply es g := by
  cases u with
  | mangle region =>
    refine reports_lookUp (fun _ _ => rfl) fun _ _ => ?_
    refine reports_lookUp (fun _ _ => rfl) fun memory _ => ?_
    exact reports_set (fun _ _ => rfl) ⟨rfl, rfl⟩
  | coverCards region =>
    refine reports_bind (reports_modify (fun _ _ => rfl) ?_)
    refine reports_lookUp (fun _ _ => rfl) fun cards _ => ?_
    exact reports_set (fun _ _ => rfl) ⟨rfl, rfl⟩
  | coverCrossings region =>
    refine reports_bind (reports_modify (fun _ _ => rfl) ?_)
    refine reports_lookUp (fun _ _ => rfl) fun crossings _ => ?_
    exact reports_set (fun _ _ => rfl) ⟨rfl, rfl⟩
  | touchNew region =>
    refine reports_lookUp (fun _ _ => rfl) fun memory _ => ?_
    exact reports_set (fun _ _ => rfl) ⟨rfl, rfl⟩
  | setBottom region =>
    refine reports_lookUp (fun _ _ => rfl) fun objects _ => ?_
    exact reports_set (fun _ _ => rfl) ⟨rfl, rfl⟩
  | setStop stop => exact reports_modify (fun _ _ => rfl) ⟨rfl, rfl⟩
  | advanceCursor stop => exact reports_modify (fun _ _ => rfl) ⟨rfl, rfl⟩
  | retreatCursor stop => exact reports_modify (fun _ _ => rfl) ⟨rfl, rfl⟩

/-- By induction on the updates. -/
theorem reports_updates {us : List Update} : Silent (us.forM Update.apply) es g := by
  induction us generalizing g with
  | nil => exact reports_pure ⟨rfl, rfl⟩
  | cons u us ih =>
    show Silent (u.apply >>= fun _ => us.forM Update.apply) es g
    exact reports_apply.bind fun _ _ => ih

theorem reports_settle {grown : Bool} : Silent (settle grown) es g := by
  refine reports_get (fun _ _ => rfl) (reports_lift fun region _ => reports_lift fun _ _ => ?_)
  exact reports_updates

theorem reports_touchAhead {addr words : Nat} : Silent (touchAhead addr words) es g := by
  refine reports_lookUp (fun _ _ => rfl) fun b _ => ?_
  obtain ⟨cursor, touched⟩ := b
  refine reports_set_bind (fun _ _ => rfl) (fun _ _ => rfl) ?_
  cases touched with
  | none => exact reports_pure ⟨rfl, rfl⟩
  | some addr => exact reports_modify (fun _ _ => rfl) ⟨rfl, rfl⟩

theorem reports_handOut {words : Nat} : Silent (handOut words) es g := by
  refine reports_lift fun _ _ => reports_get (fun _ _ => rfl) (reports_lift fun b _ => ?_)
  obtain ⟨addr, objects⟩ := b
  refine Silent.bind (reports_modify (fun _ _ => rfl) ⟨rfl, rfl⟩) fun _ g₁ => ?_
  cases addr with
  | none => exact reports_pure ⟨rfl, rfl⟩
  | some addr =>
    refine Silent.bind (reports_lift fun _ _ => reports_lift fun _ _ => ?_) fun _ g₂ => ?_
    · exact reports_modify (fun _ _ => rfl) ⟨rfl, rfl⟩
    refine Silent.bind (reports_get (fun _ _ => rfl) (reports_lift fun k _ => ?_)) fun _ g₃ => ?_
    · exact reports_modify (fun _ _ => rfl) ⟨rfl, rfl⟩
    exact reports_touchAhead.bind fun _ _ => reports_pure ⟨rfl, rfl⟩

end Generation

end Tenured
