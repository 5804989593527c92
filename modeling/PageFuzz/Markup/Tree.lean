import PageFuzz.Markup.Automaton
import PageFuzz.Markup.OpenTags

/-!
# Syntax trees

A tree of the tokens and phrases of a text.  Where the text breaks the rules, a tree holds errors,
tokens that are passed over, and tokens that are missing.  What these cost is counted while a tree
is built (`cost`), and so is how much of it is seen (`count`): of two trees of one text the one
that costs less is the better one.
-/

namespace PageFuzz.Markup

/-! ## costs -/

namespace Cost

/-- an error, besides what it holds -/
def error : Nat := 500

/-- a token that is missing, besides the error that this is -/
def missing : Nat := 110

/-- a tree that is passed over -/
def tree : Nat := 100

/-- a line that is passed over -/
def line : Nat := 30

/-- what it costs to pass over the text between two places -/
def ofText (p q : Place) : Nat := p.bytesTo q + line * p.linesTo q

end Cost

/-! ## trees -/

inductive Symbol where
  | token (t : Token)
  | phrase (p : Phrase)
  /-- a part of the text that fits nowhere -/
  | error
  /-- what is passed over in an error -/
  | skipped
deriving DecidableEq, Repr

namespace Symbol

def isVisible : Symbol → Bool
  | token t => t.isVisible
  | phrase p => p.isVisible
  | error => true
  | skipped => false

def isFailure (s : Symbol) : Bool := s == error || s == skipped

end Symbol

structure Facts where
  symbol : Symbol
  /-- whether it is no part of the phrase in which it stands, as a comment is not -/
  isExtra : Bool
  /-- where the blanks before it start -/
  before : Place
  start : Place
  stop : Place
  /-- the tags that are open after a token that depends on them -/
  tags : Option OpenTags
  /-- what the errors in it cost -/
  cost : Nat
  /-- the number of children that are seen, those of unseen children included -/
  visibleChildren : Nat
  /-- the number of trees that are seen below it -/
  visibleBelow : Nat

inductive Tree where
  | mk (facts : Facts) (children : List Tree)

namespace Tree

def facts : Tree → Facts
  | mk f _ => f

def children : Tree → List Tree
  | mk _ cs => cs

def symbol (t : Tree) : Symbol := t.facts.symbol

def isExtra (t : Tree) : Bool := t.facts.isExtra

def stop (t : Tree) : Place := t.facts.stop

def cost (t : Tree) : Nat := t.facts.cost

def isVisible (t : Tree) : Bool := t.symbol.isVisible

/-- the same tree, which stands beside the phrases around it -/
def asExtra : Tree → Tree
  | mk f cs => mk { f with isExtra := true } cs

/-- how much of a text a tree explains -/
def count (t : Tree) : Nat :=
  t.facts.visibleBelow + (if t.isVisible then 1 else 0) + (if t.symbol == .skipped then 1 else 0)

/-- a tree without children -/
def leaf (symbol : Symbol) (before start stop : Place) (tags : Option OpenTags) : Tree :=
  mk ⟨symbol, false, before, start, stop, tags, 0, 0, 0⟩ []

/-- a token that ought to stand at a place and does not -/
def missing (t : Token) (p : Place) : Tree :=
  mk ⟨.token t, false, p, p, p, none, Cost.missing + Cost.error, 0, 0⟩ []

/-- how many children that are seen stand for a child: one, or its own if it is unseen -/
def shown (t : Tree) : Nat := if t.isVisible then 1 else t.facts.visibleChildren

/-- what a child adds to the cost of a phrase; what is passed over counts once, as part of the
error in which it stands -/
def ownCost (t : Tree) : Nat := if t.symbol == .skipped then 0 else t.cost

/-- what a child adds to the cost of an error, as it is passed over -/
def passingCost (t : Tree) : Nat :=
  if t.isExtra || (t.symbol == .error && t.children.isEmpty) then t.ownCost
  else t.ownCost + Cost.tree * t.shown

/-- what an error costs besides what its children add -/
def errorCost (start stop : Place) : Nat := Cost.error + Cost.ofText start stop

/-- facts with one more child after all others, but for the cost -/
def follow (f : Facts) (c : Tree) : Facts :=
  { f with
    stop := c.stop
    visibleChildren := f.visibleChildren + c.shown
    visibleBelow := f.visibleBelow + c.facts.visibleBelow + if c.isVisible then 1 else 0 }

/-- a tree with children; without any it stands at the place `here` -/
def branch (symbol : Symbol) (here : Place) (children : List Tree) : Tree :=
  let first := children.head?.map facts
  let start := first.elim here Facts.start
  let f := children.foldl follow
    ⟨symbol, false, first.elim here Facts.before, start, here, none, 0, 0, 0⟩
  let cost :=
    if symbol.isFailure then
      children.foldl (fun n c => n + c.passingCost) (errorCost start f.stop)
    else children.foldl (fun n c => n + c.ownCost) 0
  mk { f with cost := cost } children

/-- An error that goes on.  What it has held before stays together as one child that is not seen,
and nothing counts twice. -/
def extend (error : Tree) (more : List Tree) : Tree :=
  let f := more.foldl follow { error.facts with isExtra := false }
  let before := error.cost - errorCost f.start error.stop
  let cost := more.foldl (fun n c => n + c.passingCost) (before + errorCost f.start f.stop)
  mk { f with cost := cost } (mk { error.facts with symbol := .skipped } error.children :: more)

/-- Whether two trees for one part of a text need not be told apart.  Trees with errors never
need. -/
def isAlike (a b : Tree) : Bool :=
  a.symbol == b.symbol &&
    ((0 < a.cost && 0 < b.cost) ||
      (a.facts.before.bytesTo a.facts.start == b.facts.before.bytesTo b.facts.start &&
        a.facts.start.bytesTo a.stop == b.facts.start.bytesTo b.stop &&
        a.children.length == b.children.length && a.isExtra == b.isExtra &&
        a.facts.tags == b.facts.tags))

/-- whether a second tree for the same phrase takes the place of a first one -/
def yieldsTo (a b : Tree) : Bool := b.cost < a.cost || (b.cost == a.cost && 0 < a.cost)

/-- the trees at the end of a list that are no part of a phrase, and the trees before them -/
def splitExtra (ts : List Tree) : List Tree × List Tree :=
  let r := ts.reverse
  ((r.dropWhile isExtra).reverse, (r.takeWhile isExtra).reverse)

end Tree

end PageFuzz.Markup
