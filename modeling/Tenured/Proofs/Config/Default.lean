import Mathlib.Order.MinMax
import Tenured.Proofs.Config

/-!
# The configuration of a machine

Where nothing is set, the sizes come from the machine's memory alone. Each is a multiple of the
alignment, as it is chosen among such multiples, and each lies where it has to by its last step: the
maximum is at least one alignment, the minimum is brought below it, and the initial size above the
minimum. So a machine with next to no memory gets a usable configuration like any other
(`Config.default_usable`, `Config.default_validates`).

Which initial sizes come about is decided by the memory, up to the share that a generation takes at
most: `Config.default_initialSize_le_iff`.
-/

namespace Tenured.Config

variable {memory minSize maxSize n : Nat}

theorem isPowerOfTwo_defaultAlignment : defaultAlignment.isPowerOfTwo := ⟨16, rfl⟩

/-! ## Multiples of the alignment -/

theorem dvd_roundDown_defaultAlignment (v : Nat) :
    defaultAlignment ∣ Rounding.roundDown v defaultAlignment :=
  Rounding.dvd_roundDown isPowerOfTwo_defaultAlignment

theorem dvd_defaultMaxSize (memory : Nat) : defaultAlignment ∣ defaultMaxSize memory :=
  max_rec' (defaultAlignment ∣ ·) (dvd_roundDown_defaultAlignment _) (Nat.dvd_refl _)

theorem dvd_defaultMinSize (h : defaultAlignment ∣ maxSize) :
    defaultAlignment ∣ defaultMinSize maxSize :=
  min_rec' (defaultAlignment ∣ ·)
    (max_rec' (defaultAlignment ∣ ·) (dvd_roundDown_defaultAlignment _) (Nat.dvd_refl _)) h

theorem dvd_defaultInitialSize (h : defaultAlignment ∣ minSize) :
    defaultAlignment ∣ defaultInitialSize minSize maxSize :=
  max_rec' (defaultAlignment ∣ ·) (dvd_roundDown_defaultAlignment _) h

/-! ## Bounds -/

theorem defaultAlignment_le_defaultMaxSize (memory : Nat) :
    defaultAlignment ≤ defaultMaxSize memory :=
  Nat.le_max_right ..

theorem defaultAlignment_le_defaultMinSize (h : defaultAlignment ≤ maxSize) :
    defaultAlignment ≤ defaultMinSize maxSize :=
  Nat.le_min.2 ⟨Nat.le_max_right .., h⟩

theorem defaultMinSize_le (maxSize : Nat) : defaultMinSize maxSize ≤ maxSize :=
  Nat.min_le_right ..

theorem le_defaultInitialSize (minSize maxSize : Nat) :
    minSize ≤ defaultInitialSize minSize maxSize :=
  Nat.le_max_right ..

theorem defaultInitialSize_le (h : minSize ≤ maxSize) :
    defaultInitialSize minSize maxSize ≤ maxSize :=
  Nat.max_le.2 ⟨Nat.le_trans (Rounding.roundDown_le ..) (Nat.div_le_self ..), h⟩

/-! ## Every machine -/

theorem default_usable (m : Machine) : (default m).Usable where
  isPowerOfTwo_alignment := isPowerOfTwo_defaultAlignment
  page_le_alignment := (by decide : Page.size ≤ defaultAlignment)
  maxSize_pos := Nat.lt_of_lt_of_le (by decide) (defaultAlignment_le_defaultMaxSize m.memory)
  minSize_le := le_defaultInitialSize ..
  initialSize_le := defaultInitialSize_le (defaultMinSize_le _)
  dvd_minSize := dvd_defaultMinSize (dvd_defaultMaxSize _)
  dvd_maxSize := dvd_defaultMaxSize _
  dvd_initialSize := dvd_defaultInitialSize (dvd_defaultMinSize (dvd_defaultMaxSize _))
  iterationBlock_pos := (by decide : 0 < 1024 * 1024)
  dvd_iterationBlock := (by decide : crossingBlockSize ∣ 1024 * 1024)
  workers_ne := by
    have hpos : 1 ≤ defaultWorkers m := Nat.le_max_left ..
    rw [default, ne_eq, Option.some.injEq]
    omega
  nodes_ne := nofun
  isPowerOfTwo_largePageSize := nofun

theorem default_minSize_pos (m : Machine) : 0 < (default m).minSize :=
  Nat.lt_of_lt_of_le (by decide)
    (defaultAlignment_le_defaultMinSize (defaultAlignment_le_defaultMaxSize m.memory))

/-! ## The share of the memory -/

theorem le_default_maxSize {m : Machine} (hd : defaultAlignment ∣ n)
    (hn : n ≤ memoryShare m.memory) : n ≤ (default m).maxSize :=
  Nat.le_trans (Rounding.le_roundDown isPowerOfTwo_defaultAlignment hd hn) (Nat.le_max_left ..)

theorem default_maxSize_le (m : Machine) :
    (default m).maxSize ≤ max (memoryShare m.memory) defaultAlignment :=
  max_le_max_right _ (Rounding.roundDown_le ..)

theorem defaultMaxSize_lt_iff (hd : defaultAlignment ∣ n) (hn : defaultAlignment < n) :
    defaultMaxSize memory < n ↔ memoryShare memory < n := by
  rw [defaultMaxSize, Nat.max_lt, Rounding.roundDown_lt_iff isPowerOfTwo_defaultAlignment hd]
  exact and_iff_left hn

theorem defaultInitialSize_le_iff (hd : defaultAlignment ∣ n) (hmin : minSize ≤ n) :
    defaultInitialSize minSize maxSize ≤ n ↔ maxSize < 64 * (n + defaultAlignment) := by
  rw [defaultInitialSize, Nat.max_le, Rounding.roundDown_le_iff isPowerOfTwo_defaultAlignment hd,
    and_iff_left hmin, Nat.div_lt_iff_lt_mul (by decide), Nat.mul_comm]

/-- A machine begins with no more than a size, which is at least the minimum, exactly if it has less
than so much memory, or if the size is half a gigabyte or more, a sixty-fourth of the greatest
share. -/
theorem default_initialSize_le_iff {m : Machine} (hd : defaultAlignment ∣ n)
    (hmin : (default m).minSize ≤ n) :
    (default m).initialSize ≤ n ↔
      m.memory < 256 * (n + defaultAlignment) ∨ 512 * 1024 * 1024 ≤ n := by
  have hd' : defaultAlignment ∣ 64 * (n + defaultAlignment) :=
    Nat.dvd_mul_left_of_dvd (Nat.dvd_add hd (Nat.dvd_refl _)) 64
  have hshare : 32 * 1024 * 1024 * 1024 < 64 * (n + defaultAlignment) ↔ 512 * 1024 * 1024 ≤ n := by
    obtain ⟨k, rfl⟩ := hd
    rw [show defaultAlignment = 65536 from rfl]
    omega
  calc (default m).initialSize ≤ n
      ↔ defaultMaxSize m.memory < 64 * (n + defaultAlignment) := defaultInitialSize_le_iff hd hmin
    _ ↔ memoryShare m.memory < 64 * (n + defaultAlignment) :=
      defaultMaxSize_lt_iff hd' (by have := default_minSize_pos m; omega)
    _ ↔ m.memory < 256 * (n + defaultAlignment) ∨ 512 * 1024 * 1024 ≤ n := by
      rw [memoryShare, min_lt_iff, hshare]
      omega

/-- Where nothing is set, every machine has a usable configuration, whatever its memory and however
many processors it has: the bounds are in order and positive, and the sizes are multiples of the
alignment. The maximum is the greatest multiple within a quarter of the memory and 32 gigabytes, or
one alignment where that is more. -/
theorem default_validates (m : Machine) :
    (default m).validate = .ok () ∧
    (0 < (default m).minSize ∧ (default m).minSize ≤ (default m).initialSize ∧
      (default m).initialSize ≤ (default m).maxSize) ∧
    ((default m).alignment ∣ (default m).minSize ∧ (default m).alignment ∣ (default m).initialSize ∧
      (default m).alignment ∣ (default m).maxSize) ∧
    (∀ n, (default m).alignment ∣ n → n ≤ min (m.memory / 4) (32 * 1024 * 1024 * 1024) →
      n ≤ (default m).maxSize) ∧
    (default m).maxSize ≤
      max (min (m.memory / 4) (32 * 1024 * 1024 * 1024)) (default m).alignment := by
  have h := default_usable m
  exact ⟨validate_eq_ok_iff.2 (violation?_eq_none_iff.2 h),
    ⟨default_minSize_pos m, h.minSize_le, h.initialSize_le⟩,
    ⟨h.dvd_minSize, h.dvd_initialSize, h.dvd_maxSize⟩,
    fun _ hd hn => le_default_maxSize hd hn, default_maxSize_le m⟩

end Tenured.Config
