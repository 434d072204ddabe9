import Tenured.Config.Environment
import Tenured.Proofs.Config.Default
import Tenured.Proofs.Text.Reading

/-!
# Setting the maximum alone

Where the environment sets the maximum and nothing else, the other fields are the machine's own
(`Config.fromEnvironment_of_onlySets`). Among them is the initial size, which comes from the
machine's maximum and not from the one that is set. So whether the configuration is usable depends
on the memory (`Config.fromEnvironment_validates_iff`): a machine with too much of it begins above
the maximum, and the configuration is refused (`Config.fromEnvironment_refused`).
-/

namespace Tenured.Config

open Text (Denotes)

/-- Of the variables that begin with `OLDGEN_`, only one is set, and to this text. -/
structure Environment.OnlySets (env : Environment) (name text : String) : Prop where
  set : env name = some text
  unset : ∀ other, other ≠ name → "OLDGEN_".toList <+: other.toList → env other = none

/-- The environment in which one variable is set. -/
def Environment.only (name text : String) : Environment := fun other =>
  if other = name then some text else none

variable {m : Machine} {env : Environment} {name text : String} {n : Nat}

theorem Environment.onlySets_only (name text : String) : (only name text).OnlySets name text where
  set := if_pos rfl
  unset _ hne _ := if_neg hne

theorem Environment.OnlySets.word? (h : env.OnlySets name text) (hn : Denotes text.toList n) :
    env.word? name = some n := by
  rw [Environment.word?, h.set]
  exact Text.readWord?_eq_some_iff.2 hn

theorem Environment.OnlySets.word?_of_ne (h : env.OnlySets name text) {other : String}
    (hne : other ≠ name) (hp : "OLDGEN_".toList <+: other.toList) : env.word? other = none := by
  rw [Environment.word?, h.unset other hne hp]
  rfl

theorem Environment.OnlySets.flag?_of_ne (h : env.OnlySets name text) {other : String}
    (hne : other ≠ name) (hp : "OLDGEN_".toList <+: other.toList) : env.flag? other = none := by
  rw [Environment.flag?, h.unset other hne hp]
  rfl

/-- Only the maximum differs from the machine's configuration. -/
theorem fromEnvironment_of_onlySets (h : env.OnlySets "OLDGEN_MAX_SIZE" text)
    (hn : Denotes text.toList n) : fromEnvironment m env = { default m with maxSize := n } := by
  rw [fromEnvironment, override, h.word? hn, h.word?_of_ne (by decide) (by decide),
    h.word?_of_ne (by decide) (by decide), h.word?_of_ne (by decide) (by decide),
    h.word?_of_ne (by decide) (by decide), h.flag?_of_ne (by decide) (by decide),
    h.flag?_of_ne (by decide) (by decide)]
  rfl

/-- With a larger maximum than the initial size a machine's configuration stays usable. -/
theorem usable_withMaxSize (hd : defaultAlignment ∣ n) (hn : (default m).initialSize ≤ n) :
    { default m with maxSize := n }.Usable :=
  { default_usable m with
    maxSize_pos := Nat.lt_of_lt_of_le (default_minSize_pos m)
      (Nat.le_trans (default_usable m).minSize_le hn)
    initialSize_le := hn
    dvd_maxSize := hd }

/-- With a maximum below the initial size it is refused for the initial size. -/
theorem violation?_withMaxSize (hmin : (default m).minSize ≤ n) (hn : n < (default m).initialSize) :
    { default m with maxSize := n }.violation? = some .initialOutsideBounds := by
  have h := default_usable m
  have hzero : n ≠ 0 := Nat.ne_of_gt (Nat.lt_of_lt_of_le (default_minSize_pos m) hmin)
  have hpow : ¬ (!Rounding.isPowerOfTwo (default m).alignment) = true := by
    simp [Rounding.isPowerOfTwo_iff, h.isPowerOfTwo_alignment]
  rw [violation?, if_neg hpow, if_neg (Nat.not_lt.2 h.page_le_alignment), if_neg hzero,
    if_neg (Nat.not_lt.2 hmin), if_pos (.inr hn)]

/-- Where only the maximum is set, to a multiple of the alignment that is not below the minimum, the
configuration is usable exactly if the machine has less than so much memory or the maximum is at
least half a gigabyte. Otherwise it is refused, because the machine's initial size is above the
maximum. -/
theorem fromEnvironment_validates_iff (h : env.OnlySets "OLDGEN_MAX_SIZE" text)
    (hn : Denotes text.toList n) (hd : defaultAlignment ∣ n) (hmin : (default m).minSize ≤ n) :
    fromEnvironment m env = { default m with maxSize := n } ∧
    ((fromEnvironment m env).validate = .ok () ↔
      m.memory < 256 * (n + defaultAlignment) ∨ 512 * 1024 * 1024 ≤ n) ∧
    (¬ (m.memory < 256 * (n + defaultAlignment) ∨ 512 * 1024 * 1024 ≤ n) →
      (fromEnvironment m env).validate =
        .error ⟨.size, "initial_size must be between min_size and max_size"⟩) := by
  rw [fromEnvironment_of_onlySets h hn, ← default_initialSize_le_iff hd hmin]
  have hrefused : ¬ (default m).initialSize ≤ n → { default m with maxSize := n }.validate =
      .error ⟨.size, "initial_size must be between min_size and max_size"⟩ := by
    intro hlt
    rw [validate, violation?_withMaxSize hmin (Nat.lt_of_not_le hlt)]
    rfl
  refine ⟨rfl, ⟨fun hok => ?_, fun hle => ?_⟩, hrefused⟩
  · by_contra hlt
    rw [hrefused hlt] at hok
    cases hok
  · exact validate_eq_ok_iff.2 (violation?_eq_none_iff.2 (usable_withMaxSize hd hle))

/-- A quarter of a gigabyte is a usable maximum on a machine with 64 gigabytes. -/
theorem fromEnvironment_validates_iff_quarter :
    (Environment.only "OLDGEN_MAX_SIZE" "268435456").OnlySets "OLDGEN_MAX_SIZE" "268435456" ∧
    Denotes "268435456".toList 268435456 ∧ defaultAlignment ∣ 268435456 ∧
    (default ⟨68719476736, 8, 1⟩).minSize ≤ 268435456 ∧
    (fromEnvironment ⟨68719476736, 8, 1⟩ (.only "OLDGEN_MAX_SIZE" "268435456")).validate =
      .ok () := by
  have henv := Environment.onlySets_only "OLDGEN_MAX_SIZE" "268435456"
  have hn : Denotes "268435456".toList 268435456 := Text.readWord?_eq_some_iff.1 (by decide)
  have hd : defaultAlignment ∣ 268435456 := by decide
  have hmin : (default ⟨68719476736, 8, 1⟩).minSize ≤ 268435456 := by decide
  obtain ⟨-, hiff, -⟩ := fromEnvironment_validates_iff henv hn hd hmin
  exact ⟨henv, hn, hd, hmin, hiff.2 (.inl (by decide))⟩

/-- On a machine with 128 gigabytes it is not, and the machine's minimum is not on one with two. -/
theorem fromEnvironment_refused :
    ((Environment.only "OLDGEN_MAX_SIZE" "268435456").OnlySets "OLDGEN_MAX_SIZE" "268435456" ∧
      Denotes "268435456".toList 268435456 ∧ defaultAlignment ∣ 268435456 ∧
      (default ⟨137438953472, 8, 1⟩).minSize ≤ 268435456 ∧
      (fromEnvironment ⟨137438953472, 8, 1⟩ (.only "OLDGEN_MAX_SIZE" "268435456")).validate =
        .error ⟨.size, "initial_size must be between min_size and max_size"⟩) ∧
    ((Environment.only "OLDGEN_MAX_SIZE" "4194304").OnlySets "OLDGEN_MAX_SIZE" "4194304" ∧
      Denotes "4194304".toList 4194304 ∧ defaultAlignment ∣ 4194304 ∧
      (default ⟨2147483648, 8, 1⟩).minSize ≤ 4194304 ∧
      (fromEnvironment ⟨2147483648, 8, 1⟩ (.only "OLDGEN_MAX_SIZE" "4194304")).validate =
        .error ⟨.size, "initial_size must be between min_size and max_size"⟩) := by
  refine ⟨⟨Environment.onlySets_only .., Text.readWord?_eq_some_iff.1 (by decide), by decide,
      by decide, ?_⟩, Environment.onlySets_only .., Text.readWord?_eq_some_iff.1 (by decide),
      by decide, by decide, ?_⟩
  · decide
  · decide

end Tenured.Config
