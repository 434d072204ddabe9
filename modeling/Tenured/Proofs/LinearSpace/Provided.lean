import Tenured.LinearSpace
import Tenured.Proofs.Workers

/-!
# New memory is provided

A space that gets other bounds may have the memory touched that it did not have before. What is
touched lies in two ranges, above the old end and below the old bottom, and each is touched at the
multiples of the stride (`LinearSpace.eq_of_newTouches`). Between them they hold what is new, and
they share nothing, however the old bounds and the region lie.

* `LinearSpace.setUp_eq_touchAll`: touching comes first, and the rest is as without it.
* `LinearSpace.setUp_provides`: what is touched is what is new, each address once.
-/

namespace Tenured

theorem Memory.touched_fill (m : Memory) (i n w : Nat) : (m.fill i n w).touched = m.touched := by
  fun_induction fill m i n w with
  | case1 => rfl
  | case2 m i n _ _ ih => exact ih
  | case3 m i n _ _ ih => exact ih

namespace LinearSpace

open Page (multiples)

variable {s s' : LinearSpace} {region : Region} {plan : TouchPlan} {addrs : List Nat}
  {m m' : Memory} {clear mangled : Bool}

/-- What lies above the end of a space is touched first, and then what lies below its bottom. -/
theorem newTouches_of_ne (hne : s.bottom ≠ s.stop) :
    s.newTouches region plan =
      (if s.stop < region.stop then plan.touches (max s.stop region.start) region.stop
        else .ok []) >>= fun tail =>
      (if region.start < s.bottom then plan.touches region.start (min s.bottom region.stop)
        else .ok []) >>= fun head => .ok (tail ++ head) := by
  rw [newTouches, if_neg hne]
  split <;> split <;> rfl

/-- Everything is new to an empty space. To any other, what lies above its end is new, and what lies
below its bottom. -/
theorem eq_of_newTouches (hp : plan.stride.isPowerOfTwo)
    (h : s.newTouches region plan = .ok addrs) :
    addrs = if s.bottom = s.stop then multiples region.start region.stop plan.stride
      else multiples (max s.stop region.start) region.stop plan.stride ++
        multiples region.start (min s.bottom region.stop) plan.stride := by
  by_cases he : s.bottom = s.stop
  · rw [newTouches, if_pos he] at h
    rw [if_pos he]
    exact Workers.eq_of_touches hp h
  rw [newTouches_of_ne he] at h
  rw [if_neg he]
  obtain ⟨tail, htail, h⟩ := bind_eq_ok_iff.1 h
  obtain ⟨head, hhead, h⟩ := bind_eq_ok_iff.1 h
  cases h
  congr 1
  · split at htail
    · exact Workers.eq_of_touches hp htail
    · cases htail
      exact (Page.multiples_of_le (by omega)).symm
  · split at hhead
    · exact Workers.eq_of_touches hp hhead
    · cases hhead
      exact (Page.multiples_of_le (by omega)).symm

/-- What is touched for a region is what lies in it and not between the bounds that the space has.
-/
theorem mem_newTouches (hp : plan.stride.isPowerOfTwo)
    (h : s.newTouches region plan = .ok addrs) {a : Nat} :
    a ∈ addrs ↔ plan.stride ∣ a ∧ a ∈ region ∧ ¬ (s.bottom ≤ a ∧ a < s.stop) := by
  rw [eq_of_newTouches hp h, Region.mem_def]
  split
  · rw [Page.mem_multiples]
    omega
  · rw [List.mem_append, Page.mem_multiples, Page.mem_multiples]
    omega

/-- No address is touched twice: the two ranges have no address in common. -/
theorem nodup_newTouches (hp : plan.stride.isPowerOfTwo) (hs : s.bottom ≤ s.stop)
    (h : s.newTouches region plan = .ok addrs) : addrs.Nodup := by
  rw [eq_of_newTouches hp h]
  split
  · exact Page.nodup_multiples ..
  · refine List.nodup_append.2 ⟨Page.nodup_multiples .., Page.nodup_multiples .., ?_⟩
    intro a ha b hb
    have := Page.mem_multiples.1 ha
    have := Page.mem_multiples.1 hb
    omega

/-- What is new in a region can be touched if one chunk more than the region lies within the address
space. -/
theorem exists_newTouches (hn : ∀ tasks, plan.workers.checkNames tasks = .ok ())
    (hp : plan.stride.isPowerOfTwo)
    (hlt : region.stop + Workers.chunkSize plan.stride ≤ Word.limit) :
    ∃ addrs, s.newTouches region plan = .ok addrs := by
  have htouch (start : Nat) {stop : Nat} (h : stop ≤ region.stop) :
      ∃ addrs, plan.touches start stop = .ok addrs :=
    Workers.exists_touches hn (Nat.pos_of_isPowerOfTwo hp) (by omega)
  have hpart (start : Nat) {stop : Nat} (h : stop ≤ region.stop) (p : Prop) [Decidable p] :
      ∃ addrs, (if p then plan.touches start stop else .ok []) = .ok addrs := by
    split
    · exact htouch start h
    · exact ⟨[], rfl⟩
  by_cases he : s.bottom = s.stop
  · rw [newTouches, if_pos he]
    exact htouch _ (Nat.le_refl _)
  · obtain ⟨tail, ht⟩ := hpart (max s.stop region.start) (Nat.le_refl _) (s.stop < region.stop)
    obtain ⟨head, hh⟩ := hpart region.start (Nat.min_le_right s.bottom region.stop)
      (region.start < s.bottom)
    exact ⟨tail ++ head, by rw [newTouches_of_ne he, ht, hh]; rfl⟩

/-- Touching comes first, and the rest is done as if nothing were to be touched. -/
theorem setUp_eq_touchAll (h : s.newTouches region plan = .ok addrs) :
    s.setUp region clear mangled (some plan) m =
      s.setUp region clear mangled none (m.touchAll addrs) := by
  have htouch : s.touchNew region (some plan) m = s.touchNew region none (m.touchAll addrs) := by
    simp only [touchNew, h]
    rfl
  simp only [setUp, reset, extend, htouch]

/-- Without a plan nothing is touched. -/
theorem touched_of_setUp (h : s.setUp region clear mangled none m = .ok (s', m')) :
    m'.touched = m.touched := by
  cases clear with
  | true =>
    obtain ⟨_, htouch, h⟩ := bind_eq_ok_iff.1 (show s.reset region mangled none m = _ from h)
    cases htouch
    dsimp only at h
    split at h
    · obtain ⟨m₂, hm, h⟩ := bind_eq_ok_iff.1 h
      obtain ⟨_, -, hm⟩ := bind_eq_ok_iff.1 hm
      cases hm
      cases h
      exact m.touched_fill _ _ _
    · cases h
      rfl
  | false =>
    obtain ⟨_, htouch, h⟩ := bind_eq_ok_iff.1 (show s.extend region none m = _ from h)
    cases htouch
    obtain ⟨_, -, h⟩ := bind_eq_ok_iff.1 h
    cases h
    rfl

/-- With a plan, what is new is touched and nothing else. -/
theorem exists_newTouches_of_setUp
    (h : s.setUp region clear mangled (some plan) m = .ok (s', m')) :
    ∃ addrs : List Nat, s.newTouches region plan = .ok addrs ∧
      m'.touched = m.touched ++ addrs := by
  cases hnew : s.newTouches region plan with
  | ok addrs => exact ⟨addrs, rfl, touched_of_setUp ((setUp_eq_touchAll hnew).symm.trans h)⟩
  | error e =>
    have htouch : s.touchNew region (some plan) m = .error e := by
      simp only [touchNew, hnew]
      rfl
    cases clear <;> simp [setUp, reset, extend, htouch, bind, Except.bind] at h

/-- A space can be set up without its objects if what is mangled begins at a word, and with them if
the region reaches to its top. -/
theorem exists_setUp (hclear : clear = true → mangled = true → 8 ∣ region.start)
    (hkeep : clear = false → region.start ≤ s.top ∧ s.top ≤ region.stop) (m : Memory) :
    ∃ s' m', s.setUp region clear mangled none m = .ok (s', m') := by
  cases clear with
  | true =>
    cases mangled with
    | true =>
      have hword : check (region.start % 8 = 0) .mangleUnaligned = .ok () :=
        check_eq_ok_iff.2 (Nat.mod_eq_zero_of_dvd (hclear rfl rfl))
      have hmangle : mangle m region = .ok (m.fill (region.start / 8) region.words manglePattern) :=
        bind_eq_ok_iff.2 ⟨(), hword, rfl⟩
      exact ⟨_, _, bind_eq_ok_iff.2 ⟨m, rfl, bind_eq_ok_iff.2 ⟨_, hmangle, rfl⟩⟩⟩
    | false => exact ⟨_, _, rfl⟩
  | false =>
    have htop : check (region.start ≤ s.top ∧ s.top ≤ region.stop)
        (.topOutsideNewSpace s.top region) = .ok () := check_eq_ok_iff.2 (hkeep rfl)
    have hbottom : s.setBottom region = .ok { s with bottom := region.start } :=
      bind_eq_ok_iff.2 ⟨(), htop, rfl⟩
    exact ⟨_, _, bind_eq_ok_iff.2 ⟨m, rfl, bind_eq_ok_iff.2 ⟨_, hbottom, rfl⟩⟩⟩

/-- A space that gets a region as its bounds has memory touched at exactly the multiples of the
stride that lie in the region and not between its old bounds, each once. This comes first, and
nothing else touches memory. The rest fails only where a region to be mangled does not begin at a
word, or where the top that is kept does not lie in the region. A range that is divided among
workers is touched as if it had not been divided. -/
theorem setUp_provides (hs : s.bottom ≤ s.stop) (hp : plan.stride.isPowerOfTwo)
    (hn : ∀ tasks, plan.workers.checkNames tasks = .ok ())
    (hlt : region.stop + max Workers.leastChunk plan.stride < Word.limit) :
    (∃ addrs : List Nat, addrs.Nodup ∧
      (∀ a, a ∈ addrs ↔ plan.stride ∣ a ∧ a ∈ region ∧ ¬ (s.bottom ≤ a ∧ a < s.stop)) ∧
      ∀ clear mangled m,
        s.setUp region clear mangled (some plan) m =
          s.setUp region clear mangled none (m.touchAll addrs) ∧
        (∀ s' m', s.setUp region clear mangled (some plan) m = .ok (s', m') →
          m'.touched = m.touched ++ addrs) ∧
        ((clear = true → mangled = true → 8 ∣ region.start) →
          (clear = false → region.start ≤ s.top ∧ s.top ≤ region.stop) →
          ∃ s' m', s.setUp region clear mangled (some plan) m = .ok (s', m'))) ∧
    ∀ start stop, start ≤ stop → stop ≤ region.stop →
      plan.touches start stop = Page.touches start stop plan.stride := by
  -- a chunk is at least as long as the stride, so `hlt` leaves room for either
  have hchunk : region.stop + Workers.chunkSize plan.stride ≤ Word.limit := Nat.le_of_lt hlt
  obtain ⟨addrs, ha⟩ := exists_newTouches (s := s) hn hp hchunk
  refine ⟨⟨addrs, nodup_newTouches hp hs ha, fun a => mem_newTouches hp ha, ?_⟩, ?_⟩
  · intro clear mangled m
    have heq : s.setUp region clear mangled (some plan) m =
        s.setUp region clear mangled none (m.touchAll addrs) := setUp_eq_touchAll ha
    refine ⟨heq, fun s' m' h => ?_, fun hclear hkeep => ?_⟩
    · exact touched_of_setUp (heq.symm.trans h)
    · rw [heq]
      exact exists_setUp hclear hkeep _
  · intro start stop hle hstop
    exact Workers.touches_eq_page_touches hn hp hle (by omega)

/-- Three workers, for a space that grows at both ends. -/
theorem setUp_provides_around : ∃ s' m',
    setUp ⟨0x11000, 0x11000, 0x13000, 0x11000⟩ ⟨0x10000, 0x15000, by decide⟩ false false
      (some ⟨.ofCount 3, 4096⟩) {} = .ok (s', m') ∧
    m'.touched.toList.Nodup ∧
    ∀ a, a ∈ m'.touched.toList ↔
      4096 ∣ a ∧ (0x10000 ≤ a ∧ a < 0x15000) ∧ ¬ (0x11000 ≤ a ∧ a < 0x13000) := by
  have hrun : ∃ s' m', setUp ⟨0x11000, 0x11000, 0x13000, 0x11000⟩ ⟨0x10000, 0x15000, by decide⟩
      false false (some ⟨.ofCount 3, 4096⟩) {} = .ok (s', m') := ⟨_, _, rfl⟩
  obtain ⟨s', m', h⟩ := hrun
  obtain ⟨⟨addrs, hnodup, hmem, htouch⟩, -⟩ :=
    @setUp_provides ⟨0x11000, 0x11000, 0x13000, 0x11000⟩ ⟨0x10000, 0x15000, by decide⟩
      ⟨.ofCount 3, 4096⟩ (by decide) ⟨12, rfl⟩ (Workers.checkNames_ofCount 3) (by decide)
  have htouched : m'.touched.toList = addrs := by
    rw [(htouch false false {}).2.1 s' m' h]
    simp
  refine ⟨s', m', h, ?_⟩
  rw [htouched]
  exact ⟨hnodup, hmem⟩

end LinearSpace

end Tenured
