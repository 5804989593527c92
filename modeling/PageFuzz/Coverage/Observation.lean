import PageFuzz.Coverage.NameSet
import PageFuzz.Markup.Cursor
import PageFuzz.Markup.Document
import PageFuzz.Text.Blank

/-!
# Names observed in pages

A page contributes the names of its tags and of their attributes, without blanks around them and
in lower case as far as they are ASCII.  Only start tags and tags that close themselves count.
-/

namespace PageFuzz.Coverage

open Markup (Node)

/-- the names in one page -/
structure PageNames where
  tags : NameSet
  attributes : NameSet
deriving DecidableEq

def PageNames.empty : PageNames := ⟨.empty, .empty⟩

/-- the text of a name node as a name, unless nothing is left of it -/
def nameOf (n : Node) : Option String :=
  match Text.trim n.text.toList with
  | [] => none
  | cs => some (String.ofList (Markup.lower cs))

def addName (name : Option String) (s : NameSet) : NameSet :=
  match name with
  | some name => s.insert name
  | none => s

/-- the name of an attribute node -/
def attributeName (n : Node) : Option String :=
  (n.namedChildren.find? (·.kind == .attributeName)).bind nameOf

/-- add what one part of a tag contributes -/
def recordPart (names : PageNames) (part : Node) : PageNames :=
  match part.kind with
  | .tagName => { names with tags := addName (nameOf part) names.tags }
  | .attribute => { names with attributes := addName (attributeName part) names.attributes }
  | _ => names

/-- whether a node is a tag that counts -/
def isCounted (n : Node) : Bool := n.kind == .startTag || n.kind == .selfClosingTag

/-- add what a node contributes by itself -/
def record (names : PageNames) (n : Node) : PageNames :=
  if isCounted n then n.namedChildren.foldl recordPart names else names

/-- the names in a tree -/
def namesIn (root : Node) : PageNames := root.fold record .empty

/-- the names in a page -/
def extract (source : String) : PageNames := namesIn (Markup.read source)

/-- what has been observed in a corpus so far -/
structure Observation where
  tags : NameSet
  attributes : NameSet
  pages : Nat
deriving DecidableEq

namespace Observation

def empty : Observation := ⟨.empty, .empty, 0⟩

/-- one more page -/
def absorb (o : Observation) (page : PageNames) : Observation :=
  ⟨o.tags.insertAll page.tags.names, o.attributes.insertAll page.attributes.names, o.pages + 1⟩

def ofPages (pages : List PageNames) : Observation := pages.foldl absorb empty

end Observation

end PageFuzz.Coverage
