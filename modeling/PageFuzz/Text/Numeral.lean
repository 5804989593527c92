/-!
# Decimal numerals

`readNat` accepts one or more ASCII digits, with any number of leading zeros and at most one
plus sign before them.
-/

namespace PageFuzz.Text

def digitsValue (ds : List Char) : Nat :=
  ds.foldl (fun n d => 10 * n + (d.toNat - '0'.toNat)) 0

theorem digitsValue_append_singleton (ds : List Char) (d : Char) :
    digitsValue (ds ++ [d]) = 10 * digitsValue ds + (d.toNat - '0'.toNat) := by
  simp [digitsValue]

/-- one or more ASCII digits -/
def isDigits (ds : List Char) : Bool := !ds.isEmpty && ds.all Char.isDigit

def unsigned : List Char → List Char
  | '+' :: ds => ds
  | ds => ds

def readNat (s : String) : Option Nat :=
  let ds := unsigned s.toList
  if isDigits ds then some (digitsValue ds) else none

end PageFuzz.Text
