import PageFuzz.Text.Quoted

/-!
# Symbols and alternatives

A rule puts one of its alternatives in the place of its name: a sequence of symbols, or a literal
that is kept as one opaque text.
-/

namespace PageFuzz

inductive Symbol where
  | terminal (text : String)
  | nonterminal (name : String)
deriving DecidableEq, Repr

inductive Alternative where
  | sequence (symbols : List Symbol)
  | literal (text : String)
deriving DecidableEq, Repr

namespace Symbol

/-- the name that a symbol refers to -/
def reference? : Symbol → Option String
  | terminal _ => none
  | nonterminal name => some name

/-- a terminal in quotes, a reference by its bare name -/
def display : Symbol → String
  | terminal text => Text.quote text
  | nonterminal name => name

end Symbol

namespace Alternative

/-- the symbols of a sequence; a literal has none -/
def symbols : Alternative → List Symbol
  | sequence syms => syms
  | literal _ => []

def references (a : Alternative) : List String := a.symbols.filterMap Symbol.reference?

def isTerminalOnly (a : Alternative) : Bool := a.references.isEmpty

def display : Alternative → String
  | literal text => "<literal " ++ toString text.utf8ByteSize ++ " bytes>"
  | sequence syms => String.intercalate " " (syms.map Symbol.display)

end Alternative

end PageFuzz
