import Tenured.Page

/-!
# Workers

Workers run a task once for every index below a count. Which worker takes which index is left open,
and a task may not depend on it; `Workers.run` takes the indices in order.

One worker is there already. Further ones help it as far as there are tasks for them, and each
helper has a name, which cannot hold a null character. Under the usual name only a task can fail
(`Workers.run_ofCount`).

`Workers.touches` divides a range into chunks and touches the pages of each. A `TouchPlan` says how
memory is touched: by which workers, and at which stride.
-/

namespace Tenured

/-- Workers, of which there is at least one. -/
structure Workers where
  count : Nat
  count_pos : 0 < count := by omega
  /-- The name that those of the helpers begin with. -/
  name : String := "oldgen-worker"
deriving DecidableEq

namespace Workers

/-- So many workers, but at least one. -/
def ofCount (n : Nat) : Workers :=
  { count := max n 1 }

/-- The number of workers that help the first one with so many tasks. -/
def helpers (w : Workers) (tasks : Nat) : Nat :=
  min w.count tasks - 1

/-- The name of a helper. The first one has number 1. -/
def helperName (w : Workers) (number : Nat) : String :=
  w.name ++ "-" ++ toString number

/-- Checks that the helpers for so many tasks can be named. -/
def checkNames (w : Workers) (tasks : Nat) : Except Fault Unit :=
  check (w.helpers tasks = 0 ∨ '\x00' ∉ w.name.toList) (.helperNameHasNull (w.helperName 1))

/-- The results of a task for every index below a count, or the first failure. -/
def run {ε α : Type} (w : Workers) (count : Nat) (task : Nat → Except ε α) :
    Except Fault (Except ε (List α)) := do
  w.checkNames count
  return (List.range count).mapM task

theorem checkNames_ofCount (n tasks : Nat) : (ofCount n).checkNames tasks = .ok () :=
  check_eq_ok_iff.2 (.inr (show '\x00' ∉ "oldgen-worker".toList by decide))

theorem run_ofCount {ε α : Type} (n count : Nat) (task : Nat → Except ε α) :
    (ofCount n).run count task = .ok ((List.range count).mapM task) := by
  rw [run, checkNames_ofCount]; rfl

/-! ## Touching memory -/

/-- The bytes that a task covers when pages are touched, unless the stride is longer. -/
def leastChunk : Nat := 4 * 1024 * 1024

/-- The size of the chunks in which pages at a stride are touched. -/
def chunkSize (stride : Nat) : Nat :=
  max leastChunk stride

/-- The addresses to touch in the chunk with an index. -/
def chunkTouches (start stop stride i : Nat) : Except Fault (List Nat) := do
  let chunkStart := start + i * chunkSize stride
  let chunkStop ← Word.add chunkStart (chunkSize stride)
  Page.touches chunkStart (min chunkStop stop) stride

/-- The addresses to touch so that the whole range is provided, chunk by chunk. -/
def touches (w : Workers) (start stop stride : Nat) : Except Fault (List Nat) :=
  if stop ≤ start then return []
  else do
    let chunk := chunkSize stride
    let addrs ← ← w.run ((stop - start + (chunk - 1)) / chunk) (chunkTouches start stop stride)
    return addrs.flatten

end Workers

/-- How memory is touched. -/
structure TouchPlan where
  workers : Workers
  /-- The distance between touched addresses. -/
  stride : Nat
deriving DecidableEq

/-- The addresses to touch so that the whole range is provided. -/
def TouchPlan.touches (p : TouchPlan) (start stop : Nat) : Except Fault (List Nat) :=
  p.workers.touches start stop p.stride

end Tenured
