import Mathlib.Data.List.Sort
import Tenured.Proofs.Attempt
import Tenured.Proofs.Rounding
import Tenured.Workers

/-!
# Touching memory

A range is provided by touching the multiples of the stride in it, each once and in order
(`Page.multiples`). `Page.eq_of_touches` says so of a range that is touched as a whole, and
`Workers.eq_of_touches` of one that workers divide into chunks, wherever the chunks begin. Touching
a range succeeds where the range and one chunk more end within the address space
(`Workers.exists_touches`), and then it makes no difference whether the range is divided
(`Workers.touches_eq_page_touches`).
-/

namespace Tenured

/-- A task that succeeds for every index succeeds for all of them. -/
theorem exists_mapM_eq_ok {ε α β : Type} {f : α → Except ε β} {l : List α}
    (h : ∀ a ∈ l, ∃ b, f a = .ok b) : ∃ bs, l.mapM f = .ok bs := by
  induction l with
  | nil => exact ⟨[], rfl⟩
  | cons a l ih =>
    obtain ⟨b, hb⟩ := h a (.head _)
    obtain ⟨bs, hbs⟩ := ih fun a ha => h a (.tail _ ha)
    refine ⟨b :: bs, ?_⟩
    rw [List.mapM_cons, hb, hbs]
    rfl

/-- The results of a task whose result is known for every index. -/
theorem eq_map_of_mapM {ε α β : Type} {f : α → Except ε β} {g : α → β} {l : List α} {bs : List β}
    (h : l.mapM f = .ok bs) (hf : ∀ a b, f a = .ok b → b = g a) : bs = l.map g := by
  induction l generalizing bs with
  | nil =>
    cases h
    rfl
  | cons a l ih =>
    rw [List.mapM_cons] at h
    obtain ⟨b, hb, h⟩ := bind_eq_ok_iff.1 h
    obtain ⟨bs', hbs, h⟩ := bind_eq_ok_iff.1 h
    cases h
    rw [List.map_cons, ← hf a b hb, ← ih hbs]

namespace Page

variable {start stop stride a : Nat}

/-! ## Multiples in a range -/

/-- The multiples of a stride in a range, in order. -/
def multiples (start stop stride : Nat) : List Nat :=
  (List.range' start (stop - start)).filter (stride ∣ ·)

theorem mem_multiples : a ∈ multiples start stop stride ↔ stride ∣ a ∧ start ≤ a ∧ a < stop := by
  simp only [multiples, List.mem_filter, List.mem_range'_1, decide_eq_true_eq]
  omega

theorem pairwise_multiples (start stop stride : Nat) :
    (multiples start stop stride).Pairwise (· < ·) :=
  (List.pairwise_lt_range' _).filter _

theorem nodup_multiples (start stop stride : Nat) : (multiples start stop stride).Nodup :=
  (pairwise_multiples start stop stride).imp Nat.ne_of_lt

theorem multiples_of_le (h : stop ≤ start) : multiples start stop stride = [] := by
  rw [multiples, Nat.sub_eq_zero_of_le h]
  rfl

/-- A range can be divided anywhere. -/
theorem multiples_append {mid : Nat} (h₁ : start ≤ mid) (h₂ : mid ≤ stop) :
    multiples start mid stride ++ multiples mid stop stride = multiples start stop stride := by
  have hmid : mid = start + (mid - start) := by omega
  have hlen : mid - start + (stop - mid) = stop - start := by omega
  calc multiples start mid stride ++ multiples mid stop stride
      = (List.range' start (mid - start) ++ List.range' mid (stop - mid)).filter (stride ∣ ·) :=
        (List.filter_append ..).symm
    _ = (List.range' start (mid - start) ++
          List.range' (start + (mid - start)) (stop - mid)).filter (stride ∣ ·) := by rw [← hmid]
    _ = multiples start stop stride := by rw [List.range'_append_1, hlen, multiples]

/-- The addresses at a stride from the first multiple on are all multiples. -/
theorem points_eq_multiples (hs : 0 < stride) {first : Nat} (hd : stride ∣ first)
    (hle : start ≤ first) (hlt : first < start + stride) :
    points first stop stride = multiples start stop stride := by
  have hsorted : (points first stop stride).SortedLT := by
    refine List.Pairwise.sortedLT (List.pairwise_map.2 (List.pairwise_lt_range.imp ?_))
    intro i j hij
    have := Nat.mul_lt_mul_of_pos_right hij hs
    omega
  refine hsorted.eq_of_mem_iff (pairwise_multiples start stop stride).sortedLT fun a => ?_
  rw [mem_points hs, mem_multiples]
  constructor
  · rintro ⟨hlt, i, rfl⟩
    exact ⟨Nat.dvd_add hd (Nat.dvd_mul_left ..), by omega, hlt⟩
  · rintro ⟨hda, hle', hlt'⟩
    refine ⟨hlt', ?_⟩
    -- between the start and the first multiple there is no other
    have hfirst : first ≤ a := by
      by_contra hn
      have := Rounding.add_le_of_dvd_of_lt hda hd (Nat.lt_of_not_le hn)
      omega
    obtain ⟨i, hi⟩ := Nat.dvd_sub hda hd
    exact ⟨i, by rw [Nat.mul_comm]; omega⟩

/-! ## A range touched as a whole -/

/-- The first address to touch is the first multiple of the stride in the range. -/
theorem firstPoint_eq_ok (hp : stride.isPowerOfTwo) {first : Nat}
    (h : firstPoint start stride = .ok first) :
    stride ∣ first ∧ start ≤ first ∧ first < start + stride := by
  have hd : stride ∣ Rounding.roundDown start stride := Rounding.dvd_roundDown hp
  have hle : Rounding.roundDown start stride ≤ start := Rounding.roundDown_le start stride
  have hlt : start < Rounding.roundDown start stride + stride := Rounding.lt_roundDown_add hp
  have hpos := Nat.pos_of_isPowerOfTwo hp
  obtain ⟨_, -, h⟩ := bind_eq_ok_iff.1 h
  dsimp only at h
  split at h
  · rename_i hclear
    obtain ⟨-, rfl⟩ := Word.add_eq_ok_iff.1 h
    replace hclear : Rounding.roundDown start stride < start := hclear
    exact ⟨Nat.dvd_add hd (Nat.dvd_refl _), Nat.le_of_lt hlt, Nat.add_lt_add_right hclear _⟩
  · cases h
    exact ⟨hd, Nat.le_of_not_lt ‹_›, Nat.lt_of_le_of_lt hle (Nat.lt_add_of_pos_right hpos)⟩

/-- The multiples of the stride in the range are touched, each once and in order. -/
theorem eq_of_touches (hp : stride.isPowerOfTwo) {addrs : List Nat}
    (h : touches start stop stride = .ok addrs) : addrs = multiples start stop stride := by
  obtain ⟨first, hf, h⟩ := bind_eq_ok_iff.1 h
  obtain ⟨_, -, h⟩ := bind_eq_ok_iff.1 h
  obtain ⟨hd, hle, hlt⟩ := firstPoint_eq_ok hp hf
  cases h
  exact points_eq_multiples (Nat.pos_of_isPowerOfTwo hp) hd hle hlt

theorem exists_firstPoint (hs : 0 < stride) (h : start + stride ≤ Word.limit) :
    ∃ first, firstPoint start stride = .ok first ∧ first < Word.limit := by
  have hne : stride ≠ 0 := Nat.ne_of_gt hs
  have hle := Rounding.clearBelow_le start stride
  simp only [firstPoint, check, hne, ne_eq, not_false_eq_true, if_true, bind, Except.bind]
  split
  · exact ⟨_, Word.add_eq_ok_iff.2 ⟨by omega, rfl⟩, by omega⟩
  · exact ⟨_, rfl, by omega⟩

/-- The address after the last one lies less than one stride above the range. -/
theorem exists_touches (hs : 0 < stride) (hle : start ≤ stop) (h : stop + stride ≤ Word.limit) :
    ∃ addrs, touches start stop stride = .ok addrs := by
  have hstart : start + stride ≤ Word.limit := by omega
  obtain ⟨first, hf, hlt⟩ := exists_firstPoint hs hstart
  have hlast : first + (points first stop stride).length * stride < Word.limit := by
    rw [length_points]
    have hmul := Nat.div_mul_le_self (stop - first + (stride - 1)) stride
    by_cases hfirst : first ≤ stop
    · omega
    · have hzero : (stop - first + (stride - 1)) / stride = 0 := Nat.div_eq_of_lt (by omega)
      rw [hzero, Nat.zero_mul]
      exact hlt
  refine ⟨points first stop stride, ?_⟩
  simp only [touches, hf, hlast, check, if_true, bind, Except.bind]
  rfl

/-- A range can be touched if one stride more than it lies within the address space. -/
theorem touches_eq_ok (hp : stride.isPowerOfTwo) (hle : start ≤ stop)
    (h : stop + stride ≤ Word.limit) :
    touches start stop stride = .ok (multiples start stop stride) := by
  obtain ⟨addrs, ha⟩ := exists_touches (Nat.pos_of_isPowerOfTwo hp) hle h
  rw [ha, eq_of_touches hp ha]

end Page

namespace Workers

variable {w : Workers} {start stop stride : Nat}

/-! ## A range divided into chunks -/

/-- So many chunks from the start of a range on touch the multiples up to where they end. -/
theorem flatMap_chunks (chunk n : Nat) (hle : start ≤ stop) :
    (List.range n).flatMap (fun i =>
      Page.multiples (start + i * chunk) (min (start + i * chunk + chunk) stop) stride) =
    Page.multiples start (min (start + n * chunk) stop) stride := by
  induction n with
  | zero =>
    rw [Nat.zero_mul, Nat.add_zero, Nat.min_eq_left hle, Page.multiples_of_le (Nat.le_refl _)]
    rfl
  | succ n ih =>
    rw [List.range_succ, List.flatMap_append, ih, List.flatMap_singleton, Nat.succ_mul,
      ← Nat.add_assoc]
    rcases Nat.le_total stop (start + n * chunk) with hend | hend
    · rw [Nat.min_eq_right hend, Nat.min_eq_right (by omega), Page.multiples_of_le hend,
        List.append_nil]
    · rw [Nat.min_eq_left hend]
      exact Page.multiples_append (Nat.le_add_right ..) (Nat.le_min.2 ⟨by omega, hend⟩)

/-- The chunks of a range reach to its end. -/
theorem le_chunks {chunk : Nat} (h : 0 < chunk) :
    stop ≤ start + (stop - start + (chunk - 1)) / chunk * chunk := by
  have := Nat.lt_div_mul_add (a := stop - start + (chunk - 1)) h
  omega

theorem eq_of_chunkTouches (hp : stride.isPowerOfTwo) {i : Nat} {addrs : List Nat}
    (h : chunkTouches start stop stride i = .ok addrs) :
    addrs = Page.multiples (start + i * chunkSize stride)
      (min (start + i * chunkSize stride + chunkSize stride) stop) stride := by
  obtain ⟨chunkStop, hstop, h⟩ := bind_eq_ok_iff.1 h
  obtain ⟨-, rfl⟩ := Word.add_eq_ok_iff.1 hstop
  exact Page.eq_of_touches hp h

/-- Dividing a range into chunks changes nothing: the multiples of the stride in the range are
touched, each once and in order. -/
theorem eq_of_touches (hp : stride.isPowerOfTwo) {addrs : List Nat}
    (h : w.touches start stop stride = .ok addrs) : addrs = Page.multiples start stop stride := by
  unfold touches at h
  split at h
  · rename_i hle
    cases h
    exact (Page.multiples_of_le hle).symm
  rename_i hlt
  have hchunk : 0 < chunkSize stride := Nat.lt_of_lt_of_le (by decide) (Nat.le_max_left ..)
  obtain ⟨_, hrun, h⟩ := bind_eq_ok_iff.1 h
  obtain ⟨chunks, rfl, h⟩ := bind_eq_ok_iff.1 h
  obtain ⟨_, -, hrun⟩ := bind_eq_ok_iff.1 hrun
  cases h
  rw [eq_map_of_mapM (Except.ok.inj hrun) fun i addrs => eq_of_chunkTouches hp, ← List.flatMap_def,
    flatMap_chunks _ _ (Nat.le_of_not_le hlt), Nat.min_eq_right (le_chunks hchunk)]

/-! ## Ranges that can be touched -/

theorem exists_chunkTouches (hs : 0 < stride) {i : Nat} (hi : start + i * chunkSize stride < stop)
    (h : stop + chunkSize stride ≤ Word.limit) :
    ∃ addrs, chunkTouches start stop stride i = .ok addrs := by
  have hle : stride ≤ chunkSize stride := Nat.le_max_right ..
  have hpos : 0 < chunkSize stride := Nat.lt_of_lt_of_le hs hle
  have hstop : Word.add (start + i * chunkSize stride) (chunkSize stride) =
      .ok (start + i * chunkSize stride + chunkSize stride) :=
    Word.add_eq_ok_iff.2 ⟨by omega, rfl⟩
  simp only [chunkTouches, hstop, bind, Except.bind]
  exact Page.exists_touches hs (by omega) (by omega)

/-- Workers whose helpers can be named touch a range if one chunk more than it lies within the
address space. -/
theorem exists_touches (hn : ∀ tasks, w.checkNames tasks = .ok ()) (hs : 0 < stride)
    (h : stop + chunkSize stride ≤ Word.limit) :
    ∃ addrs, w.touches start stop stride = .ok addrs := by
  have hpos : 0 < chunkSize stride := Nat.lt_of_lt_of_le hs (Nat.le_max_right ..)
  unfold touches
  split
  · exact ⟨[], rfl⟩
  · rename_i hlt
    obtain ⟨addrs, ha⟩ : ∃ addrs, (List.range ((stop - start + (chunkSize stride - 1)) /
        chunkSize stride)).mapM (chunkTouches start stop stride) = .ok addrs := by
      refine exists_mapM_eq_ok fun i hi => exists_chunkTouches hs ?_ h
      have := (Nat.lt_div_iff_mul_lt hpos).1 (List.mem_range.1 hi)
      omega
    refine ⟨addrs.flatten, ?_⟩
    simp only [run, hn, ha, bind, Except.bind]
    rfl

/-- Such a range is touched as if it had not been divided. -/
theorem touches_eq_page_touches (hn : ∀ tasks, w.checkNames tasks = .ok ())
    (hp : stride.isPowerOfTwo) (hle : start ≤ stop) (h : stop + chunkSize stride ≤ Word.limit) :
    w.touches start stop stride = Page.touches start stop stride := by
  have hstride : stride ≤ chunkSize stride := Nat.le_max_right ..
  obtain ⟨addrs, ha⟩ : ∃ addrs, w.touches start stop stride = .ok addrs :=
    exists_touches hn (Nat.pos_of_isPowerOfTwo hp) h
  rw [ha, eq_of_touches hp ha, Page.touches_eq_ok hp hle (by omega)]

/-- A range in the lower half of the address space can be touched at any stride that is a word. -/
theorem exists_touches_of_le_half (n : Nat) (hp : stride.isPowerOfTwo) (hlt : stride < Word.limit)
    (h : stop ≤ Word.limit / 2) : ∃ addrs, (ofCount n).touches start stop stride = .ok addrs := by
  have hhalf : chunkSize stride ≤ Word.limit / 2 :=
    Nat.max_le.2 ⟨by decide, Rounding.le_half_of_isPowerOfTwo hp hlt⟩
  refine exists_touches (checkNames_ofCount n) (Nat.pos_of_isPowerOfTwo hp) ?_
  simp only [Word.limit] at hhalf h ⊢
  omega

end Workers

end Tenured
