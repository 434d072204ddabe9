import Tenured.Attempt

/-!
# Results put together from results

A computation whose parts come one after another has a result exactly if all parts have, and the
last part's is its own: `bind_eq_ok_iff` for computations that may end with a fault, and
`Attempt.outcome_bind` for attempts. It is without a fault exactly if all parts are that it comes to
(`Attempt.faultless_bind`).
-/

namespace Tenured

variable {α β : Type}

theorem bind_eq_ok_iff {ε : Type} {x : Except ε α} {f : α → Except ε β} {b : β} :
    x >>= f = .ok b ↔ ∃ a, x = .ok a ∧ f a = .ok b := by
  cases x with
  | ok a => exact ⟨fun h => ⟨a, rfl, h⟩, fun ⟨_, h, hf⟩ => by cases h; exact hf⟩
  | error e => exact ⟨nofun, fun ⟨_, h, _⟩ => by cases h⟩

namespace Attempt

theorem outcome_eq_result_iff {x : Attempt α} {a : α} :
    outcome x = .result a ↔ x.run = .ok (.ok a) := by
  unfold outcome
  rcases x.run with e | e | b <;> simp

theorem outcome_pure {a b : α} : outcome (pure a : Attempt α) = .result b ↔ a = b := by
  rw [outcome_eq_result_iff]
  exact ⟨fun h => by cases h; rfl, fun h => by rw [h]; rfl⟩

theorem outcome_bind {x : Attempt α} {f : α → Attempt β} {b : β} :
    outcome (x >>= f) = .result b ↔ ∃ a, outcome x = .result a ∧ outcome (f a) = .result b := by
  simp only [outcome_eq_result_iff, ExceptT.run_bind, bind_eq_ok_iff]
  constructor
  · rintro ⟨r, hx, hf⟩
    cases r with
    | ok a => exact ⟨a, hx, hf⟩
    | error e => cases hf
  · rintro ⟨a, hx, hf⟩
    exact ⟨.ok a, hx, hf⟩

/-- A computation without errors, as an attempt. -/
theorem outcome_lift {x : Except Fault α} {a : α} :
    outcome (liftM x : Attempt α) = .result a ↔ x = .ok a := by
  rw [outcome_eq_result_iff]
  cases x with
  | ok b => exact ⟨fun h => by cases h; rfl, fun h => by cases h; rfl⟩
  | error e => exact ⟨nofun, nofun⟩

theorem outcome_throw {e : Error} {a : α} : outcome (throw e : Attempt α) ≠ .result a := by
  rw [ne_eq, outcome_eq_result_iff]
  nofun

/-- What an attempt goes on to, unless it ends with an error. -/
theorem outcome_unless {p : Prop} [Decidable p] {e : Error} {f : β → Attempt α} {x : Attempt α}
    {a : α} : outcome (if p then throw e >>= f else x) = .result a ↔
      ¬ p ∧ outcome x = .result a := by
  split
  · rename_i hp
    refine ⟨fun h => ?_, fun h => absurd hp h.1⟩
    obtain ⟨_, h, -⟩ := outcome_bind.1 h
    exact absurd h outcome_throw
  · rename_i hp
    exact ⟨fun h => ⟨hp, h⟩, fun h => h.2⟩

theorem outcome_ofExcept {r : Except Error α} {a : α} :
    outcome (ofExcept r) = .result a ↔ r = .ok a := by
  rw [outcome_eq_result_iff]
  exact ⟨fun h => Except.ok.inj h, fun h => by rw [h]; rfl⟩

/-! ## Attempts without faults -/

/-- The attempt ends with a result or an error. -/
def Faultless (x : Attempt α) : Prop :=
  ∀ e, outcome x ≠ .fault e

variable {x : Attempt α} {f : α → Attempt β}

theorem outcome_eq_fault_iff {e : Fault} : outcome x = .fault e ↔ x.run = .error e := by
  unfold outcome
  rcases x.run with e | e | b <;> simp

theorem faultless_bind :
    Faultless (x >>= f) ↔ Faultless x ∧ ∀ a, outcome x = .result a → Faultless (f a) := by
  simp only [Faultless, ne_eq, outcome_eq_fault_iff, outcome_eq_result_iff, ExceptT.run_bind]
  rcases hx : x.run with e | e | a
  · exact ⟨fun h => absurd rfl (h e), fun h => absurd rfl (h.1 e)⟩
  · exact ⟨fun _ => ⟨nofun, nofun⟩, fun _ => nofun⟩
  · exact ⟨fun h => ⟨nofun, fun _ ha => by cases ha; exact h⟩, fun h => h.2 a rfl⟩

theorem faultless_pure {a : α} : Faultless (pure a : Attempt α) :=
  nofun

theorem faultless_throw {e : Error} : Faultless (throw e : Attempt α) :=
  nofun

theorem faultless_lift {r : Except Fault α} {a : α} (h : r = .ok a) :
    Faultless (liftM r : Attempt α) := by
  rw [h]
  exact nofun

/-- A computation without errors and faults adds none to what an attempt goes on to. -/
theorem faultless_lift_bind {r : Except Fault α} {a : α} (hr : r = .ok a) :
    Faultless (liftM r >>= f) ↔ Faultless (f a) := by
  refine faultless_bind.trans ⟨fun h => h.2 a (outcome_lift.2 hr), fun h => ⟨faultless_lift hr, ?_⟩⟩
  intro b hb
  rw [outcome_lift, hr] at hb
  cases hb
  exact h

/-- What an attempt goes on to has to be without faults unless it ends with an error. -/
theorem faultless_unless {p : Prop} [Decidable p] {e : Error} {f : β → Attempt α} :
    Faultless (if p then throw e >>= f else x) ↔ (¬ p → Faultless x) := by
  split
  · rename_i hp
    exact ⟨fun _ hn => absurd hp hn,
      fun _ => faultless_bind.2 ⟨faultless_throw, fun _ hb => absurd hb outcome_throw⟩⟩
  · rename_i hp
    exact ⟨fun h _ => h, fun h => h hp⟩

theorem Faultless.lift_bind {r : Except Fault α} {a : α} (hr : r = .ok a) (h : Faultless (f a)) :
    Faultless (liftM r >>= f) :=
  (faultless_lift_bind hr).2 h

end Attempt

end Tenured
