import Mathlib.Data.List.Chain
import Tenured.Proofs.LinearSpace

/-!
# Blocks handed out

The bounds of a space can move while its top stays, and the top can move while the bounds stay. As
long as the top only moves by handing out blocks, the blocks lie one after another, wherever the
bounds went in the meantime.

* `LinearSpace.Laid`: blocks that lie one after another. `Laid.concat` adds one.
* `LinearSpace.Orderly`: the invariant of a space and the blocks handed out since its top was last
  moved in another way. There is one lemma for each call that keeps it: `Orderly.setUp_clear`,
  `Orderly.setUp_keep`, `Orderly.handOut`, `Orderly.moveTop`, `Orderly.clear`.
* `LinearSpace.Run.orderly`: it holds of every space that a new one becomes.
* `LinearSpace.Run.blocks_adjacent`: what follows for the space and for the blocks.
-/

namespace Tenured.LinearSpace

open Object (wordSize)

variable {s s' : LinearSpace} {region : Region} {words addr : Nat} {mangled : Bool}
  {plan : Option TouchPlan} {m m' : Memory}

/-! ## Blocks that lie one after another -/

/-- A block, and the space that handed it out as it was before. -/
structure Handed where
  block : Region
  space : LinearSpace

/-- The blocks lie one after another up to an address. None of them is empty, and each lay between
the bounds of the space when it was handed out. -/
structure Laid (top : Nat) (out : List Handed) : Prop where
  chain : out.IsChain fun a b => a.block.stop = b.block.start
  apart : out.Pairwise fun a b => a.block.stop ≤ b.block.start
  le_top : ∀ x ∈ out, x.block.stop ≤ top
  last : ∀ x ∈ out.getLast?, x.block.stop = top
  inside : ∀ x ∈ out, x.block.start < x.block.stop ∧ x.space.bottom ≤ x.block.start ∧
    x.block.stop ≤ x.space.stop

namespace Laid

variable {top : Nat} {out : List Handed}

theorem nil : Laid top [] :=
  ⟨.nil, .nil, by simp, by simp, by simp⟩

/-- One block more follows on the others. -/
theorem concat (h : Laid top out) {x : Handed} (hstart : x.block.start = top)
    (hin : x.block.start < x.block.stop ∧ x.space.bottom ≤ x.block.start ∧
      x.block.stop ≤ x.space.stop) : Laid x.block.stop (out ++ [x]) where
  chain := by
    refine List.isChain_append.2 ⟨h.chain, .singleton _, ?_⟩
    simpa [hstart] using h.last
  apart := by
    refine List.pairwise_append.2 ⟨h.apart, List.pairwise_singleton .., ?_⟩
    simpa [hstart] using h.le_top
  le_top y hy := by
    rcases List.mem_append.1 hy with hy | hy
    · have := h.le_top y hy
      omega
    · rw [List.mem_singleton.1 hy]
  last := by simp
  inside y hy := by
    rcases List.mem_append.1 hy with hy | hy
    · exact h.inside y hy
    · rw [List.mem_singleton.1 hy]
      exact hin

end Laid

/-! ## The invariant -/

/-- The top lies between the bounds, and the blocks lie one after another up to the top. -/
structure Orderly (s : LinearSpace) (out : List Handed) : Prop where
  bottom_le : s.bottom ≤ s.top
  top_le : s.top ≤ s.stop
  stop_lt : s.stop < Word.limit
  laid : Laid s.top out

/-- The blocks handed out after one more call for so many words. -/
def handedAfter (s : LinearSpace) (out : List Handed) (words : Nat) : List Handed :=
  if words = 0 then out else out ++ [⟨⟨s.top, s.top + words * wordSize, by omega⟩, s⟩]

namespace Orderly

variable {out : List Handed}

theorem setUp_clear (hl : region.stop < Word.limit)
    (h : s.setUp region true mangled plan m = .ok (s', m')) : Orderly s' [] := by
  rw [LinearSpace.setUp_clear h]
  exact ⟨Nat.le_refl _, region.start_le_stop, hl, .nil⟩

variable (h : Orderly s out)
include h

/-- New bounds on both sides of the top do not matter to the blocks below it. -/
theorem setUp_keep (hl : region.stop < Word.limit)
    (hs : s.setUp region false mangled plan m = .ok (s', m')) : Orderly s' out := by
  obtain ⟨hb, ht, rfl⟩ := LinearSpace.setUp_keep hs
  exact ⟨hb, ht, hl, h.laid⟩

theorem handOut (ho : s.handOut words = .ok (some addr, s')) :
    Orderly s' (s.handedAfter out words) := by
  rcases (handOut_eq_ok_iff h.stop_lt h.top_le).1 ho with ⟨-, hn, -⟩ | ⟨hfit, -, -, rfl⟩
  · cases hn
  have hb := h.bottom_le
  have ht := h.top_le
  refine ⟨?_, ?_, h.stop_lt, ?_⟩
  · dsimp only; omega
  · dsimp only; omega
  unfold handedAfter
  split
  · rename_i hz
    subst hz
    simpa using h.laid
  · rename_i hz
    have hpos : 0 < words * wordSize := Nat.mul_pos (Nat.pos_of_ne_zero hz) (by decide)
    refine h.laid.concat (x := ⟨⟨s.top, s.top + words * wordSize, by omega⟩, s⟩) rfl ?_
    dsimp only
    omega

theorem moveTop (hm : s.moveTop addr = .ok s') : Orderly s' [] := by
  obtain ⟨hb, ht, rfl⟩ := moveTop_eq_ok hm
  exact ⟨hb, ht, h.stop_lt, .nil⟩

theorem clear (hc : s.clear mangled m = .ok (s', m')) : Orderly s' [] := by
  rw [clear_eq_ok hc]
  exact ⟨Nat.le_refl _, Nat.le_trans h.bottom_le h.top_le, h.stop_lt, .nil⟩

end Orderly

/-! ## Runs -/

/-- What becomes of a new space by calls that end without a fault, and the blocks of at least a word
that it handed out since its top was last moved in another way. -/
inductive Run : LinearSpace → List Handed → Prop
  | new : Run {} []
  | setUp {s s' : LinearSpace} {out : List Handed} {region : Region} {clear mangled : Bool}
    {plan : Option TouchPlan} {m m' : Memory} (h : Run s out) (hl : region.stop < Word.limit)
    (hs : s.setUp region clear mangled plan m = .ok (s', m')) : Run s' (if clear then [] else out)
  | handOut {s s' : LinearSpace} {out : List Handed} {words addr : Nat} (h : Run s out)
    (ho : s.handOut words = .ok (some addr, s')) : Run s' (s.handedAfter out words)
  | moveTop {s s' : LinearSpace} {out : List Handed} {addr : Nat} (h : Run s out)
    (hm : s.moveTop addr = .ok s') : Run s' []
  | clear {s s' : LinearSpace} {out : List Handed} {mangled : Bool} {m m' : Memory} (h : Run s out)
    (hc : s.clear mangled m = .ok (s', m')) : Run s' []

theorem Run.orderly {out : List Handed} (h : Run s out) : Orderly s out := by
  induction h with
  | new => exact ⟨Nat.le_refl _, Nat.le_refl _, by decide, .nil⟩
  | @setUp _ _ _ _ clear _ _ _ _ _ hl hs ih =>
    cases clear with
    | true => exact .setUp_clear hl hs
    | false => exact ih.setUp_keep hl hs
  | handOut _ ho ih => exact ih.handOut ho
  | moveTop _ hm ih => exact ih.moveTop hm
  | clear _ hc ih => exact ih.clear hc

/-- The top always lies between the bounds, and what is used and what is free add up to the
capacity. A block is refused exactly if it does not fit in what is free, and that changes nothing;
one that fits begins at the old top and ends at the new one. So the blocks handed out since the top
was last moved in another way lie one after another up to the top, no two of them share an address,
and each lay between the bounds when it was handed out. -/
theorem Run.blocks_adjacent {out : List Handed} (h : Run s out) :
    s.bottom ≤ s.top ∧ s.top ≤ s.stop ∧
    (∃ used capacity, s.used = .ok used ∧ s.capacity = .ok capacity ∧ used + s.free = capacity) ∧
    (∀ words addr? s', s.handOut words = .ok (addr?, s') ↔
      (s.stop - s.top < words * wordSize ∧ addr? = none ∧ s' = s) ∨
      (words * wordSize ≤ s.stop - s.top ∧ 8 ∣ s.top ∧ addr? = some s.top ∧
        s' = { s with top := s.top + words * wordSize })) ∧
    out.IsChain (fun a b => a.block.stop = b.block.start) ∧
    (∀ x ∈ out.getLast?, x.block.stop = s.top) ∧
    out.Pairwise (fun a b => ∀ addr ∈ a.block, addr ∉ b.block) ∧
    ∀ x ∈ out, x.block.start < x.block.stop ∧ x.space.bottom ≤ x.block.start ∧
      x.block.stop ≤ x.space.stop := by
  have ho := h.orderly
  have hb := ho.bottom_le
  have ht := ho.top_le
  refine ⟨hb, ht, ⟨s.top - s.bottom, s.stop - s.bottom, ?_, ?_, ?_⟩, fun _ _ _ => ?_,
    ho.laid.chain, ho.laid.last, ho.laid.apart.imp fun hab addr ha hb => ?_, ho.laid.inside⟩
  · exact Word.sub_eq_ok_iff.2 ⟨hb, rfl⟩
  · exact Word.sub_eq_ok_iff.2 ⟨Nat.le_trans hb ht, rfl⟩
  · simp only [free]
    omega
  · exact handOut_eq_ok_iff ho.stop_lt ht
  · simp only [Region.mem_def] at ha hb
    omega

/-- The space gets other bounds after two blocks, and the third one still follows on them. Then it
is full. -/
theorem Run.blocks_adjacent_small : ∃ (s : LinearSpace) (out : List Handed), Run s out ∧
    out.map Handed.block = [⟨4096, 4128, by decide⟩, ⟨4128, 4176, by decide⟩,
      ⟨4176, 4192, by decide⟩] ∧
    out.Pairwise (fun a b => ∀ addr ∈ a.block, addr ∉ b.block) ∧
    s.bottom = 2048 ∧ s.handOut 1 = .ok (none, s) := by
  have hrun : ∃ a b c d s : LinearSpace,
      ({} : LinearSpace).setUp ⟨4096, 8192, by decide⟩ true false none {} = .ok (a, {}) ∧
      a.handOut 4 = .ok (some 4096, b) ∧ b.handOut 6 = .ok (some 4128, c) ∧
      c.setUp ⟨2048, 4192, by decide⟩ false false none {} = .ok (d, {}) ∧
      d.handOut 2 = .ok (some 4176, s) ∧
      (d.handedAfter (b.handedAfter (a.handedAfter [] 4) 6) 2).map Handed.block =
        [⟨4096, 4128, by decide⟩, ⟨4128, 4176, by decide⟩, ⟨4176, 4192, by decide⟩] ∧
      s.bottom = 2048 ∧ s.stop - s.top < 1 * wordSize :=
    ⟨_, _, _, _, _, rfl, rfl, rfl, rfl, rfl, rfl, rfl, by decide⟩
  obtain ⟨a, b, c, d, s, ha, hb, hc, hd, hs, hblocks, hbottom, hfull⟩ := hrun
  have hra : Run a [] := .setUp .new (by decide) ha
  have hrd : Run d (b.handedAfter (a.handedAfter [] 4) 6) :=
    .setUp (.handOut (.handOut hra hb) hc) (by decide) hd
  have hr : Run s (d.handedAfter (b.handedAfter (a.handedAfter [] 4) 6) 2) := .handOut hrd hs
  obtain ⟨-, -, -, hout, -, -, hapart, -⟩ := Run.blocks_adjacent hr
  exact ⟨s, _, hr, hblocks, hapart, hbottom, (hout ..).2 (.inl ⟨hfull, rfl, rfl⟩)⟩

end Tenured.LinearSpace
