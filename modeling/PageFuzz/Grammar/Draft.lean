import PageFuzz.Grammar.Basic
import PageFuzz.Grammar.Notation

/-!
# Drafts

A grammar is declared piece by piece and then built.  Declaring a name again adds alternatives
to it.  Whether a token of the notation is a reference is decided when the draft is built, by the
names of the whole draft.
-/

namespace PageFuzz

/-- an alternative before it is known which tokens are names -/
inductive Pending where
  | tokens (ts : List String)
  | explicit (a : Alternative)
deriving DecidableEq, Repr

inductive Declaration where
  /-- alternatives in the rule notation -/
  | spec (name : String) (text : String)
  /-- one literal -/
  | literal (name : String) (text : String)
  /-- alternatives with their kinds of symbols given; none of them still declares the name -/
  | explicit (name : String) (alternatives : List Alternative)
deriving DecidableEq, Repr

namespace Declaration

def name : Declaration → String
  | spec n _ => n
  | literal n _ => n
  | explicit n _ => n

def pending : Declaration → List Pending
  | spec _ text => (Notation.tokens text).map .tokens
  | literal _ text => [.explicit (.literal text)]
  | explicit _ alts => alts.map .explicit

end Declaration

structure Draft where
  rules : List (String × List Pending)
deriving DecidableEq, Repr

namespace Draft

def empty : Draft := ⟨[]⟩

/-- add alternatives to a name, which comes last if it is new -/
def extendRules (name : String) (new : List Pending) :
    List (String × List Pending) → List (String × List Pending)
  | [] => [(name, new)]
  | (n, old) :: rules =>
    if n = name then (n, old ++ new) :: rules else (n, old) :: extendRules name new rules

/-- adding in two steps is adding at once -/
theorem extendRules_extendRules (name : String) (a b : List Pending)
    (rules : List (String × List Pending)) :
    extendRules name b (extendRules name a rules) = extendRules name (a ++ b) rules := by
  induction rules with
  | nil => simp [extendRules]
  | cons r rules ih =>
    obtain ⟨n, old⟩ := r
    by_cases h : n = name
    · simp [extendRules, h]
    · simp [extendRules, h, ih]

def declare (d : Draft) (decl : Declaration) : Draft :=
  ⟨extendRules decl.name decl.pending d.rules⟩

def ofDeclarations (decls : List Declaration) : Draft := decls.foldl declare empty

theorem ofDeclarations_append (a b : List Declaration) :
    ofDeclarations (a ++ b) = b.foldl declare (ofDeclarations a) := by
  simp [ofDeclarations]

def size (d : Draft) : Nat := d.rules.length

def names (d : Draft) : List String := d.rules.map (·.1)

def isValidName (name : String) : Bool := !name.isEmpty && !name.toList.any Text.isBlank

/-- what is wrong with a name or with the number of its alternatives -/
def ruleFault? (r : String × List Pending) : Option GrammarError :=
  if !isValidName r.1 then some (.invalidName r.1)
  else if r.2.isEmpty then some (.noAlternatives r.1)
  else none

/-- a token is a reference when a rule has that name -/
def classify (names : List String) (token : String) : Symbol :=
  if names.contains token then .nonterminal token else .terminal token

def resolve (names : List String) : Pending → Alternative
  | .tokens ts => .sequence (ts.map (classify names))
  | .explicit a => a

/-- the first reference of a rule that leads nowhere -/
def referenceFault? (names : List String) (r : String × List Alternative) : Option GrammarError :=
  ((r.2.flatMap Alternative.references).find? (!names.contains ·)).map
    (.undefined · (some r.1))

/-- Names and numbers of alternatives are checked for all rules before any reference is. -/
def build (d : Draft) : Except GrammarError Grammar :=
  match d.rules.findSome? ruleFault? with
  | some fault => .error fault
  | none =>
    let rules := d.rules.map fun r => (r.1, r.2.map (resolve d.names))
    match rules.findSome? (referenceFault? d.names) with
    | some fault => .error fault
    | none => .ok ⟨rules⟩

end Draft

end PageFuzz
