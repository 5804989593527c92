import PageFuzz.Page.Script

/-!
# Templates

A template is a text with places for the seed of a session and for the port that pages call back.
-/

namespace PageFuzz.Page

/-- Replace the pattern wherever it occurs, from left to right, after passing over `skip`
characters of an occurrence that has been replaced already. -/
def replaceFrom (pattern new : List Char) : Nat → List Char → List Char
  | _, [] => []
  | skip + 1, _ :: cs => replaceFrom pattern new skip cs
  | 0, c :: cs =>
    if pattern.isPrefixOf (c :: cs) then new ++ replaceFrom pattern new (pattern.length - 1) cs
    else c :: replaceFrom pattern new 0 cs

/-- every occurrence of a pattern replaced; the pattern is not empty -/
def replaceAll (pattern new : String) (text : String) : String :=
  String.ofList (replaceFrom pattern.toList new.toList 0 text.toList)

theorem replaceFrom_nil (pattern new : List Char) (skip : Nat) :
    replaceFrom pattern new skip [] = [] := by
  cases skip <;> rfl

/-- the place of the seed -/
def seedMark : String := "\x7b\x7bseed\x7d\x7d"

/-- the place of the port -/
def portMark : String := "\x7b\x7bcallback_port\x7d\x7d"

/-- a template with its places filled, the seed's first -/
def render (template seed : String) (port : Nat) : String :=
  replaceAll portMark (toString port) (replaceAll seedMark seed template)

/-- the payload of a session -/
def payload (seed : String) (port : Nat) : String := render script seed port

end PageFuzz.Page
