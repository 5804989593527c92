/-!
# Lines

A line ends at a line feed, and one carriage return before the line feed belongs to the end of
the line.  What stands after the last line feed is a line unless it is empty, and keeps its
carriage returns.
-/

namespace PageFuzz.Text

/-- a line without the carriage return of its end -/
def dropReturn (l : List Char) : List Char :=
  if l.getLast? = some '\r' then l.dropLast else l

theorem dropReturn_append_return (l : List Char) : dropReturn (l ++ ['\r']) = l := by
  simp [dropReturn]

/-- the lines of a text that has been cut at its line feeds -/
def linesOfPieces : List (List Char) → List (List Char)
  | [] => []
  | [l] => if l.isEmpty then [] else [l]
  | l :: m :: ls => dropReturn l :: linesOfPieces (m :: ls)

def lines (cs : List Char) : List (List Char) := linesOfPieces (cs.splitOnP (· == '\n'))

theorem lines_nil : lines [] = [] := rfl

end PageFuzz.Text
