import Tenured.Generation.Basic

/-!
# What actions end in

`Action.Ends x g Q E` says that the action `x`, done to the generation `g`, ends with a result and a
generation for which `Q` holds, or with a fault and a generation for which `E` holds. With `E` false
the action is free of faults; with `E` true nothing is said of faults. There is one lemma for each
way to put actions together, and `Action.Ends.of_ok` brings what is known of an action to a run of
it that ended with a result.
-/

namespace Tenured

variable {α β : Type}

namespace Action

/-- The action ends with a result and a generation for which `Q` holds, or with a fault and a
generation for which `E` holds. -/
def Ends (x : Action α) (g : Generation) (Q : α → Generation → Prop)
    (E : Fault → Generation → Prop) : Prop :=
  match x g with
  | .ok a g' => Q a g'
  | .error e g' => E e g'

variable {x : Action α} {g : Generation} {Q : α → Generation → Prop}
  {E : Fault → Generation → Prop}

theorem Ends.of_ok {a : α} {g' : Generation} (h : Ends x g Q E) (hx : x g = .ok a g') : Q a g' := by
  unfold Ends at h
  rwa [hx] at h

theorem Ends.of_error {e : Fault} {g' : Generation} (h : Ends x g Q E) (hx : x g = .error e g') :
    E e g' := by
  unfold Ends at h
  rwa [hx] at h

/-- An action without faults ends with a result. -/
theorem Ends.exists_ok (h : Ends x g Q fun _ _ => False) : ∃ a g', x g = .ok a g' ∧ Q a g' := by
  unfold Ends at h
  cases hx : x g with
  | ok a g' => exact ⟨a, g', rfl, by rwa [hx] at h⟩
  | error e g' => rw [hx] at h; exact h.elim

/-- An action without results ends with a fault. -/
theorem Ends.exists_error (h : Ends x g (fun _ _ => False) E) :
    ∃ e g', x g = .error e g' ∧ E e g' := by
  unfold Ends at h
  cases hx : x g with
  | ok a g' => rw [hx] at h; exact h.elim
  | error e g' => exact ⟨e, g', rfl, by rwa [hx] at h⟩

theorem Ends.mono {Q' : α → Generation → Prop} {E' : Fault → Generation → Prop} (h : Ends x g Q E)
    (hQ : ∀ a g', Q a g' → Q' a g') (hE : ∀ e g', E e g' → E' e g') : Ends x g Q' E' := by
  unfold Ends at h ⊢
  cases hx : x g with
  | ok a g' => rw [hx] at h; exact hQ a g' h
  | error e g' => rw [hx] at h; exact hE e g' h

/-- Weaker conditions on the results only. -/
theorem Ends.imp {Q' : α → Generation → Prop} (h : Ends x g Q E)
    (hQ : ∀ a g', Q a g' → Q' a g') : Ends x g Q' E :=
  h.mono hQ fun _ _ he => he

/-- Weaker conditions on the results, of which it is known that the action has them. -/
theorem Ends.imp_of_ok {Q' : α → Generation → Prop} (h : Ends x g Q E)
    (hQ : ∀ a g', x g = .ok a g' → Q a g' → Q' a g') : Ends x g Q' E := by
  unfold Ends at h ⊢
  cases hx : x g with
  | ok a g' => rw [hx] at h; exact hQ a g' hx h
  | error e g' => rwa [hx] at h

/-! ## Actions put together -/

theorem ends_pure {a : α} : Ends (pure a) g Q E ↔ Q a g := Iff.rfl

theorem ends_bind {y : Action β} {f : β → Action α} :
    Ends (y >>= f) g Q E ↔ Ends y g (fun b g' => Ends (f b) g' Q E) E := by
  change (match EStateM.bind y f g with | .ok a g' => Q a g' | .error e g' => E e g') ↔ _
  unfold EStateM.bind Ends
  cases y g <;> rfl

theorem ends_get {Q : Generation → Generation → Prop} : Ends get g Q E ↔ Q g g := Iff.rfl

theorem ends_set {Q : Unit → Generation → Prop} {g' : Generation} :
    Ends (set g') g Q E ↔ Q () g' := Iff.rfl

theorem ends_modify {Q : Unit → Generation → Prop} {f : Generation → Generation} :
    Ends (modify f) g Q E ↔ Q () (f g) := Iff.rfl

theorem ends_discard {y : Action β} {Q : PUnit → Generation → Prop} :
    Ends (discard y) g Q E ↔ Ends y g (fun _ g' => Q ⟨⟩ g') E := by
  rw [discard, LawfulFunctor.map_const, Function.comp, map_eq_pure_bind, ends_bind]
  rfl

theorem ends_lift {r : Except Fault α} :
    Ends (liftM r) g Q E ↔ (∀ a, r = .ok a → Q a g) ∧ ∀ e, r = .error e → E e g := by
  cases r with
  | ok a => exact ⟨fun h => ⟨fun _ hb => by cases hb; exact h, nofun⟩, fun h => h.1 a rfl⟩
  | error e => exact ⟨fun h => ⟨nofun, fun _ hf => by cases hf; exact h⟩, fun h => h.2 e rfl⟩

theorem ends_lift_of_eq {r : Except Fault α} {a : α} (h : r = .ok a) :
    Ends (liftM r) g Q E ↔ Q a g := by
  rw [h]; rfl

theorem ends_check {p : Prop} [Decidable p] {f : Fault} {Q : Unit → Generation → Prop} :
    Ends (liftM (check p f)) g Q E ↔ (p → Q () g) ∧ (¬ p → E f g) := by
  unfold check
  split <;> rename_i hp
  · exact ⟨fun h => ⟨fun _ => h, fun hn => absurd hp hn⟩, fun h => h.1 hp⟩
  · exact ⟨fun h => ⟨fun hy => absurd hy hp, fun _ => h⟩, fun h => h.2 hp⟩

theorem ends_ite {p : Prop} [Decidable p] {y : Action α} :
    Ends (if p then x else y) g Q E ↔ (p → Ends x g Q E) ∧ (¬ p → Ends y g Q E) := by
  split <;> rename_i hp
  · exact ⟨fun h => ⟨fun _ => h, fun hn => absurd hp hn⟩, fun h => h.1 hp⟩
  · exact ⟨fun h => ⟨fun hy => absurd hy hp, fun _ => h⟩, fun h => h.2 hp⟩

end Action

end Tenured
