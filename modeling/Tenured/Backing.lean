import Tenured.Reservation

/-!
# The backing of a generation

The backing is a reservation as a generation sees it. Its bounds may lie inside those of the
reservation, and a commit may be refused although there is room for it. It counts what it was asked
for.

* `Backing.commit_eq_false`: a commit that is not granted is counted, and nothing else changes.
-/

namespace Tenured

/-- A reservation with the bounds that are shown and the rule by which commits are granted. -/
structure Backing where
  base : Reservation
  /-- How far the shown low end and the shown committed end lie above the real ones. -/
  shift : Nat := 0
  /-- How far the shown end of the reservation lies below the real one. -/
  cut : Nat := 0
  /-- Whether a commit is granted, after so many commits were asked for, with so many bytes
  committed, and for so many more. -/
  grants : Nat → Nat → Nat → Bool := fun _ _ _ => true
  /-- The number of commits that were asked for. -/
  commits : Nat := 0
  /-- The number of commits that were not granted. -/
  refusals : Nat := 0
  /-- The number of releases that were asked for. -/
  releases : Nat := 0
deriving Inhabited

namespace Backing

/-- The backing that grants whatever fits, up to a limit of committed bytes. -/
def limited (base : Reservation) (limit : Nat) : Backing :=
  { base, grants := fun _ committed bytes => committed + bytes ≤ limit }

/-- The start of the committed part. -/
def start (v : Backing) : Nat :=
  v.base.start + v.shift

/-- The end of the committed part. -/
def high (v : Backing) : Nat :=
  v.base.high + v.shift

/-- The end of the reservation. -/
def stop (v : Backing) : Nat :=
  v.base.stop - v.cut

/-- The unit of commits and releases. -/
def alignment (v : Backing) : Nat :=
  v.base.alignment

/-- The number of bytes committed. -/
def committed (v : Backing) : Nat :=
  v.base.committed

/-- Checks that the shown bounds are words. -/
def checkBounds (v : Backing) : Except Fault Unit := do
  discard <| Word.sub v.base.stop v.cut
  discard <| Word.add v.base.stop v.shift

/-- The number of bytes reserved. -/
def reserved (v : Backing) : Except Fault Nat :=
  Word.sub v.stop v.start

/-- The number of bytes reserved and not committed. -/
def left (v : Backing) : Except Fault Nat := do
  Word.sub (← v.reserved) v.committed

/-- The committed addresses. -/
def committedPart (v : Backing) : Except Fault Region :=
  Region.ofBounds v.start v.high

/-- The reserved addresses. -/
def whole (v : Backing) : Except Fault Region :=
  Region.ofBounds v.start v.stop

/-- The reservation after a commit, if it is granted and there is room for it. -/
def granted? (v : Backing) (bytes : Nat) : Option Reservation :=
  if v.grants v.commits v.committed bytes then v.base.commit? bytes else none

/-- Whether a commit was made, and the backing after it was asked for. -/
def commit (v : Backing) (bytes : Nat) : Bool × Backing :=
  match v.granted? bytes with
  | some base => (true, { v with base, commits := v.commits + 1 })
  | none => (false, { v with commits := v.commits + 1, refusals := v.refusals + 1 })

/-- The backing and the host after the last `bytes` committed bytes were given back. -/
def release (v : Backing) (bytes : Nat) (h : Host) : Except Fault (Backing × Host) := do
  let (base, h) ← v.base.release bytes h
  return ({ v with base, releases := v.releases + 1 }, h)

theorem of_commit_true {v v' : Backing} {bytes : Nat} (h : v.commit bytes = (true, v')) :
    v.base.commit? bytes = some v'.base ∧ v'.high = v.high + bytes := by
  unfold commit granted? at h
  split at h
  · rename_i base hb
    simp only [Prod.mk.injEq, true_and] at h
    subst h
    split at hb
    · refine ⟨hb, ?_⟩
      have := Reservation.high_of_commit? hb
      simp only [high, this]; omega
    · simp at hb
  · simp at h

theorem commit_eq_false {v v' : Backing} {bytes : Nat} (h : v.commit bytes = (false, v')) :
    v' = { v with commits := v.commits + 1, refusals := v.refusals + 1 } := by
  unfold commit at h
  split at h <;> cases h
  rfl

end Backing

end Tenured
