import Tenured.Config.Basic
import Tenured.Proofs.Rounding

/-!
# Usable configurations

`Config.Usable` says what the rules of a configuration say, without their order, and
`Config.violation?_eq_none_iff` that a configuration which breaks none of them is usable.
-/

namespace Tenured.Config

/-- What all rules together ask of a configuration. -/
structure Usable (c : Config) : Prop where
  isPowerOfTwo_alignment : c.alignment.isPowerOfTwo
  page_le_alignment : Page.size ≤ c.alignment
  maxSize_pos : 0 < c.maxSize
  minSize_le : c.minSize ≤ c.initialSize
  initialSize_le : c.initialSize ≤ c.maxSize
  dvd_minSize : c.alignment ∣ c.minSize
  dvd_maxSize : c.alignment ∣ c.maxSize
  dvd_initialSize : c.alignment ∣ c.initialSize
  iterationBlock_pos : 0 < c.iterationBlock
  dvd_iterationBlock : crossingBlockSize ∣ c.iterationBlock
  workers_ne : c.workers ≠ some 0
  nodes_ne : c.nodes ≠ some 0
  isPowerOfTwo_largePageSize : c.largePages = true → c.largePageSize.isPowerOfTwo

/-- A rule that is kept leaves the decision to those after it. -/
theorem ite_some_eq_none_iff {p : Prop} [Decidable p] {v : Violation} {o : Option Violation} :
    (if p then some v else o) = none ↔ ¬ p ∧ o = none := by
  split <;> simp_all

theorem violation?_eq_none_iff {c : Config} : c.violation? = none ↔ c.Usable := by
  simp only [violation?, ite_some_eq_none_iff, Bool.not_eq_true', Bool.not_eq_false,
    Rounding.isPowerOfTwo_iff, not_or, Nat.not_lt, Bool.and_eq_true, not_and, Decidable.not_not,
    ← Nat.dvd_iff_mod_eq_zero]
  constructor
  · rintro ⟨h₁, h₂, h₃, -, h₅, h₆, h₇, h₈, h₉, h₁₀, h₁₁, h₁₂, -⟩
    exact ⟨h₁, h₂, Nat.pos_of_ne_zero h₃, h₅.1, h₅.2, h₆, h₇, h₈, Nat.pos_of_ne_zero h₉.1, h₉.2,
      h₁₀, h₁₁, h₁₂⟩
  · intro h
    exact ⟨h.1, h.2, Nat.ne_of_gt h.3, Nat.le_trans h.4 h.5, ⟨h.4, h.5⟩, h.6, h.7, h.8,
      ⟨Nat.ne_of_gt h.9, h.10⟩, h.11, h.12, h.13, trivial⟩

theorem validate_eq_ok {c : Config} (h : c.validate = .ok ()) : c.Usable :=
  violation?_eq_none_iff.1 (validate_eq_ok_iff.1 h)

namespace Usable

variable {c : Config} (h : c.Usable)
include h

theorem minSize_le_maxSize : c.minSize ≤ c.maxSize :=
  Nat.le_trans h.minSize_le h.initialSize_le

/-- The alignment consists of whole pages. -/
theorem page_dvd_alignment : 4096 ∣ c.alignment :=
  Rounding.dvd_of_le ⟨12, rfl⟩ h.isPowerOfTwo_alignment h.page_le_alignment

theorem isPowerOfTwo_touchStride : c.touchStride.isPowerOfTwo := by
  unfold touchStride
  split
  · exact h.isPowerOfTwo_largePageSize ‹_›
  · exact ⟨12, rfl⟩

end Usable

end Tenured.Config
