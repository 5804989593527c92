import PageFuzz.Markup.Element

/-!
# Open tags

The start tags that still wait for their end, the innermost first.  They are kept in a record of
limited size: a tag for which there is no room is forgotten, which leaves a gap of one byte that
no end tag fits.  A custom name is kept up to a limited length.
-/

namespace PageFuzz.Markup

structure OpenTag where
  /-- none if the tag is forgotten -/
  element : Option Element
  /-- the bytes of the record up to this tag -/
  used : Nat
  /-- the number of open tags up to this one -/
  depth : Nat
deriving DecidableEq, Repr

abbrev OpenTags := List OpenTag

namespace OpenTags

/-- the bytes of a whole record -/
def recordSize : Nat := 1024

/-- the bytes of a record without tags -/
def headSize : Nat := 4

/-- the most characters that are kept of a custom name -/
def keptLength : Nat := 255

/-- the most tags that are counted -/
def mostTags : Nat := 65535

/-- what is kept of an element -/
def kept (e : Element) : Element :=
  if e.isCustom then { e with name := String.ofList (e.name.toList.take keptLength) } else e

/-- the bytes that a kept element takes: custom names are written out -/
def recordedSize (e : Element) : Nat := if e.isCustom then 2 + e.name.length else 1

def used : OpenTags → Nat
  | [] => headSize
  | t :: _ => t.used

def depth : OpenTags → Nat
  | [] => 0
  | t :: _ => t.depth

/-- the element of the innermost tag, unless it is forgotten -/
def top? : OpenTags → Option Element
  | [] => none
  | t :: _ => t.element

/-- the bytes that the gap of a forgotten tag takes -/
def gapSize : Nat := 1

/-- open one more tag -/
def push (e : Element) (s : OpenTags) : OpenTags :=
  if s.depth == mostTags then s
  else if recordSize ≤ s.used + recordedSize (kept e) then
    ⟨none, s.used + gapSize, s.depth + 1⟩ :: s
  else ⟨some (kept e), s.used + recordedSize (kept e), s.depth + 1⟩ :: s

/-- whether an end tag of an element closes the innermost tag -/
def closes (e : Element) (s : OpenTags) : Bool := s.top? == some e

/-- whether a tag of the kind of an element is open -/
def hasLike (e : Element) (s : OpenTags) : Bool :=
  s.any fun t => t.element.any e.isLike

end OpenTags

end PageFuzz.Markup
