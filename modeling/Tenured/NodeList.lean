import Tenured.Fault
import Tenured.Text.Blank
import Tenured.Text.Decimal
import Tenured.Text.Fields

/-!
# Node lists

The system lists its memory nodes as numbers and ranges of numbers between commas, such as
`0-3,5`. `NodeList.count` is the number of nodes listed, without regard to repetitions. Blanks
around a number are allowed, an empty part is not.
-/

namespace Tenured.NodeList

/-- A part of a node list. -/
inductive Part
  | single (node : Nat)
  | range (lo hi : Nat)
deriving DecidableEq

/-- The nodes of a part, of which there is at least one. -/
def Part.count : Part → Except Fault Nat
  | single _ => return 1
  | range lo hi => do Word.add (← Word.sub hi lo) 1

/-- A number between blanks. -/
def readNode? (cs : List Char) : Option Nat :=
  Text.readWord? (Text.trim cs)

/-- The part that a text denotes: a number, or two numbers in order with a dash between them. -/
def readPart? (cs : List Char) : Option Part :=
  match Text.cut? '-' cs with
  | none => (readNode? cs).map .single
  | some (l, r) => do
    let lo ← readNode? l
    let hi ← readNode? r
    if hi < lo then none else some (.range lo hi)

/-- The number of nodes in the given parts, added to `total`. It is `none` from the first malformed
part on, and a fault if a number on the way is no word. -/
def countFrom (total : Nat) : List (List Char) → Except Fault (Option Nat)
  | [] => return some total
  | cs :: rest =>
    match readPart? cs with
    | none => return none
    | some part => do countFrom (← Word.add total (← part.count)) rest

/-- The number of nodes in a list, or `none` if the text is empty or malformed. -/
def count (text : List Char) : Except Fault (Option Nat) :=
  if text = [] then return none else countFrom 0 (Text.fields ',' text)

end Tenured.NodeList
