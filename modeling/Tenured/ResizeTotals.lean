import Tenured.Fault
import Tenured.Json.Record

/-!
# Resize totals

How often a generation grew, shrank or failed to grow, by how much in total, and how long that
took. Every total is a machine word and wraps.
-/

namespace Tenured

open Json

/-- A span of time, with less than a second in nanoseconds. -/
structure Elapsed where
  seconds : Nat
  nanoseconds : Nat
deriving DecidableEq

namespace Elapsed

/-- No time. -/
def zero : Elapsed :=
  ⟨0, 0⟩

/-- The span of so many seconds and nanoseconds, where whole seconds among the nanoseconds carry
over. -/
def ofParts (seconds nanoseconds : Nat) : Except Fault Elapsed := do
  let seconds ← orFault .elapsedTooLong (Word.add? seconds (nanoseconds / 1000000000))
  return ⟨seconds, nanoseconds % 1000000000⟩

/-- The number of nanoseconds in a span. -/
def total (t : Elapsed) : Nat :=
  t.seconds * 1000000000 + t.nanoseconds

end Elapsed

/-- The running totals of a generation's resizes. -/
structure ResizeTotals where
  growths : Nat := 0
  releases : Nat := 0
  failures : Nat := 0
  bytesGrown : Nat := 0
  bytesReleased : Nat := 0
  /-- The time spent, in nanoseconds. -/
  time : Nat := 0
deriving DecidableEq, Inhabited

namespace ResizeTotals

/-- Counts a growth. -/
def recordGrowth (s : ResizeTotals) (bytes : Nat) (time : Elapsed) : ResizeTotals :=
  { s with
    growths := Word.addWrap s.growths 1
    bytesGrown := Word.addWrap s.bytesGrown bytes
    time := Word.addWrap s.time time.total }

/-- Counts a release. -/
def recordRelease (s : ResizeTotals) (bytes : Nat) (time : Elapsed) : ResizeTotals :=
  { s with
    releases := Word.addWrap s.releases 1
    bytesReleased := Word.addWrap s.bytesReleased bytes
    time := Word.addWrap s.time time.total }

/-- Counts a growth that failed. -/
def recordFailure (s : ResizeTotals) : ResizeTotals :=
  { s with failures := Word.addWrap s.failures 1 }

/-- The members of the written form. -/
def members (s : ResizeTotals) : List (String × Scalar) :=
  [("expansions", .word s.growths), ("shrinks", .word s.releases),
    ("failed_expansions", .word s.failures), ("bytes_expanded", .word s.bytesGrown),
    ("bytes_shrunk", .word s.bytesReleased), ("resize_time_ns", .word s.time)]

/-- The fields of the written form. -/
def schema : List Field :=
  [⟨"expansions", .word⟩, ⟨"shrinks", .word⟩, ⟨"failed_expansions", .word⟩,
    ⟨"bytes_expanded", .word⟩, ⟨"bytes_shrunk", .word⟩, ⟨"resize_time_ns", .word⟩]

/-- The written form. -/
def toJson (s : ResizeTotals) : String :=
  Record.print s.members

/-- The totals that a text holds. -/
def ofJson? (text : String) : Option ResizeTotals :=
  match Record.read? schema text with
  | some [.word growths, .word releases, .word failures, .word bytesGrown,
      .word bytesReleased, .word time] =>
    some { growths, releases, failures, bytesGrown, bytesReleased, time }
  | _ => none

end ResizeTotals

end Tenured
