/-!
# Lines and columns

`Text.padRight` fills a column with spaces, and `Text.lines` cuts a text at the ends of its lines.
-/

namespace Tenured.Text

/-- A text with spaces after it, up to a number of characters. -/
def padRight (width : Nat) (s : String) : String :=
  s ++ String.ofList (List.replicate (width - s.length) ' ')

/-- The lines of a text, put before those that follow, with the current line in reverse. A line ends
with a line feed, which may have a carriage return before it. -/
def linesFrom : List Char → List Char → List (List Char)
  | [], [] => []
  | c :: cs, [] => [(c :: cs).reverse]
  | line, c :: rest =>
    if c = '\n' then
      match line with
      | '\r' :: line => line.reverse :: linesFrom [] rest
      | line => line.reverse :: linesFrom [] rest
    else linesFrom (c :: line) rest

/-- The lines of a text. What follows the last line feed is a line if it is not empty. -/
def lines (s : String) : List String :=
  (linesFrom [] s.toList).map String.ofList

end Tenured.Text
