import PageFuzz.Grammar.Symbol

/-!
# Grammars

A grammar is a list of rules in order of registration, each a name with its alternatives.  What
makes one usable is checked where it is built (`Draft.build`).
-/

namespace PageFuzz

inductive GrammarError where
  /-- a name that no rule has, and the rule that refers to it, if one does -/
  | undefined (name : String) (referrer : Option String)
  | noAlternatives (name : String)
  /-- an empty name, or one with a blank in it -/
  | invalidName (name : String)
deriving DecidableEq, Repr

def GrammarError.message : GrammarError → String
  | undefined name none => "undefined nonterminal '" ++ name ++ "'"
  | undefined name (some rule) =>
    "undefined nonterminal '" ++ name ++ "' (referenced by '" ++ rule ++ "')"
  | noAlternatives name => "nonterminal '" ++ name ++ "' has no alternatives"
  | invalidName name => "invalid nonterminal name: '" ++ name ++ "'"

structure Grammar where
  rules : List (String × List Alternative)
deriving DecidableEq, Repr

namespace Grammar

def alternatives? (g : Grammar) (name : String) : Option (List Alternative) :=
  g.rules.lookup name

def contains (g : Grammar) (name : String) : Bool := (g.alternatives? name).isSome

/-- the rule names in order of registration -/
def names (g : Grammar) : List String := g.rules.map (·.1)

def size (g : Grammar) : Nat := g.rules.length

def isEmpty (g : Grammar) : Bool := g.rules.isEmpty

/-- the alternatives of all rules together -/
def alternativeCount (g : Grammar) : Nat := (g.rules.flatMap (·.2)).length

/-- the length of the longest sequence -/
def width (g : Grammar) : Nat :=
  (g.rules.flatMap fun r => r.2.map (·.symbols.length)).foldr max 0

theorem le_foldr_max {n : Nat} {ns : List Nat} (h : n ∈ ns) : n ≤ ns.foldr max 0 := by
  induction ns with
  | nil => cases h
  | cons m ms ih =>
    simp only [List.foldr_cons]
    rcases List.mem_cons.mp h with rfl | h
    · exact Nat.le_max_left _ _
    · exact Nat.le_trans (ih h) (Nat.le_max_right _ _)

theorem mem_of_lookup {α : Type} {name : String} {a : α} {rules : List (String × α)}
    (h : rules.lookup name = some a) : (name, a) ∈ rules := by
  induction rules with
  | nil => cases h
  | cons r rules ih =>
    obtain ⟨n, b⟩ := r
    by_cases hn : name = n
    · subst hn
      simp only [List.lookup_cons, BEq.rfl, Option.some.injEq] at h
      subst h
      exact List.mem_cons_self
    · have : (name == n) = false := by simpa using hn
      simp only [List.lookup_cons, this] at h
      exact List.mem_cons_of_mem _ (ih h)

/-- no sequence that a name leads to is longer than the width -/
theorem length_symbols_le_width {g : Grammar} {name : String} {alts : List Alternative}
    {a : Alternative} (h : g.alternatives? name = some alts) (ha : a ∈ alts) :
    a.symbols.length ≤ g.width :=
  le_foldr_max (List.mem_flatMap.mpr ⟨_, mem_of_lookup h, List.mem_map.mpr ⟨a, ha, rfl⟩⟩)

end Grammar

end PageFuzz
