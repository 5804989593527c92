import PageFuzz.Derivation.Chooser
import PageFuzz.Derivation.Limits

/-!
# Derivation trees

A tree at a name is one of the alternatives of its rule, known by its place among them: a literal,
or a sequence with a tree for each reference in it.  A forest is the trees of a row of symbols, in
which a terminal stands for itself.

* `leaves`    what is written, from left to right;
* `nesting`   how many sequences lie inside one another at most;
* `draws`     the nodes from the root on, each before what is below it and from left to right:
              how many alternatives there were and which of them was taken.
-/

namespace PageFuzz

/-- a text of leaves, with one space after each -/
def spell (leaves : List String) : String := String.join (leaves.map (· ++ " "))

theorem spell_nil : spell [] = "" := rfl

namespace Grammar

mutual

inductive Tree (g : Grammar) : String → Type where
  | literal {name : String} (text : String) (alts : List Alternative)
      (rule : g.alternatives? name = some alts) (index : Fin alts.length)
      (chosen : alts.get index = .literal text) : Tree g name
  | sequence {name : String} {syms : List Symbol} (alts : List Alternative)
      (rule : g.alternatives? name = some alts) (index : Fin alts.length)
      (chosen : alts.get index = .sequence syms) (children : Forest g syms) : Tree g name

inductive Forest (g : Grammar) : List Symbol → Type where
  | nil : Forest g []
  | terminal {syms : List Symbol} (text : String) (rest : Forest g syms) :
      Forest g (.terminal text :: syms)
  | nonterminal {name : String} {syms : List Symbol} (tree : Tree g name) (rest : Forest g syms) :
      Forest g (.nonterminal name :: syms)

end

variable {g : Grammar}

mutual

def Tree.leaves {name : String} : Tree g name → List String
  | .literal text _ _ _ _ => [text]
  | .sequence _ _ _ _ children => children.leaves

def Forest.leaves {syms : List Symbol} : Forest g syms → List String
  | .nil => []
  | .terminal text rest => text :: rest.leaves
  | .nonterminal tree rest => tree.leaves ++ rest.leaves

end

mutual

def Tree.nesting {name : String} : Tree g name → Nat
  | .literal _ _ _ _ _ => 0
  | .sequence _ _ _ _ children => children.nesting + 1

def Forest.nesting {syms : List Symbol} : Forest g syms → Nat
  | .nil => 0
  | .terminal _ rest => rest.nesting
  | .nonterminal tree rest => max tree.nesting rest.nesting

end

mutual

def Tree.draws {name : String} : Tree g name → List Draw
  | .literal _ alts _ index _ => [⟨alts.length, index⟩]
  | .sequence alts _ index _ children => ⟨alts.length, index⟩ :: children.draws

def Forest.draws {syms : List Symbol} : Forest g syms → List Draw
  | .nil => []
  | .terminal _ rest => rest.draws
  | .nonterminal tree rest => tree.draws ++ rest.draws

end

/-- the answers that lead a chooser through the tree -/
def Tree.picks {name : String} (tree : Tree g name) : List Nat := tree.draws.map (·.pick)

end Grammar

end PageFuzz
