import PageFuzz.Text.Blank

/-!
# The rule notation

A rule is written as its alternatives with `|` between them, each a row of tokens with blanks
between them.  A piece without a token is an empty alternative.
-/

namespace PageFuzz.Notation

/-- what separates two alternatives -/
def bar : Char := '|'

/-- the tokens of each alternative -/
def tokens (spec : String) : List (List String) :=
  (spec.toList.splitOnP (· == bar)).map fun piece => (Text.words piece).map String.ofList

end PageFuzz.Notation
