import PageFuzz.Markup.Tree

/-!
# Stacks of states

A stack holds the states through which a text has been read, each on top of the one before it,
with the tree that has been read between the two.  Readings of one text that come to the same
state are joined: below a frame there can then be several ways down.

All walks go down on all ways at once, one frame in each round, and `visit` sees every frame on
every way.  A way that `visit` stops is left.
-/

namespace PageFuzz.Markup

structure Stack.Facts where
  /-- a number that no other frame has -/
  id : Nat
  state : State
  place : Place
  /-- what the errors below cost -/
  cost : Nat
  /-- how much of the text the trees below explain -/
  count : Nat
  /-- the most frames below on any way -/
  height : Nat

/-- A frame with the ways down from it, each with the tree on it.  Where an error starts there is
a way without a tree. -/
inductive Stack where
  | mk (facts : Stack.Facts) (ways : List (Option Tree × Stack))

/-- a way down from a frame: the tree on it and the frame below -/
abbrev Way := Option Tree × Stack

namespace Stack

def facts : Stack → Stack.Facts
  | mk f _ => f

def ways : Stack → List Way
  | mk _ ws => ws

def id (s : Stack) : Nat := s.facts.id

def state (s : Stack) : State := s.facts.state

def place (s : Stack) : Place := s.facts.place

def cost (s : Stack) : Nat := s.facts.cost

def count (s : Stack) : Nat := s.facts.count

def height (s : Stack) : Nat := s.facts.height

/-- nothing has been read -/
def bottom (p : Place) : Stack := mk ⟨0, .start, p, 0, 0, 0⟩ []

def countOn (tree : Option Tree) : Nat := tree.elim 0 Tree.count

/-- a new frame on top -/
def push (id : Nat) (tree : Option Tree) (state : State) (s : Stack) : Stack :=
  mk ⟨id, state, tree.elim s.place Tree.stop, s.cost + tree.elim 0 Tree.cost,
    s.count + countOn tree, s.height + 1⟩ [(tree, s)]

/-- Whether two stacks have come to the same point at the same cost. -/
def meets (a b : Stack) : Bool :=
  a.state == b.state && a.place.offset == b.place.offset && a.cost == b.cost

/-- whether an error starts on top -/
def startsError (s : Stack) : Bool := s.state == .error && s.ways.head?.all (·.1.isNone)

/-! ## joining -/

/-- the most ways down from a frame -/
def mostWays : Nat := 8

def isAlikeOn : Option Tree → Option Tree → Bool
  | none, none => true
  | some a, some b => a.isAlike b
  | _, _ => false

/-- One more way down from a frame.  Where a way with a like tree leads to a frame that it meets,
their frames are joined in turn, `depth` frames down at most. -/
def addWay : (depth : Nat) → Way → Stack → Stack
  | 0, _, s => s
  | depth + 1, (tree, below), s =>
    if below.id == s.id then s
    else
      match s.ways.findIdx? fun w => isAlikeOn w.1 tree && (w.2.id == below.id || w.2.meets below)
      with
      | some i =>
        match s.ways[i]? with
        | some (t, b) =>
          if b.id == below.id then s
          else mk s.facts (s.ways.set i (t, below.ways.foldl (fun b w => addWay depth w b) b))
        | none => s
      | none =>
        if s.ways.length == mostWays then s
        else
          mk { s.facts with
              count := max s.count (below.count + countOn tree)
              height := max s.height (below.height + 1) }
            (s.ways ++ [(tree, below)])

/-- a stack with the ways down from another one that meets it -/
def join (a b : Stack) : Stack := b.ways.foldl (fun s w => addWay (s.height + 1) w s) a

/-! ## walking down -/

/-- a walk down from the top to some frame -/
structure Walk where
  stack : Stack
  /-- the trees on the way, in the order of the text -/
  trees : List Tree
  /-- the number of frames left behind, those below trees that are no part of a phrase apart -/
  depth : Nat

def Walk.down (w : Walk) : Way → Walk
  | (none, s) => ⟨s, w.trees, w.depth + 1⟩
  | (some t, s) => ⟨s, t :: w.trees, if t.isExtra then w.depth else w.depth + 1⟩

/-- the most walks at a time -/
def mostWalks : Nat := 64

/-- One round: each walk goes on by the first way down, and new walks begin by the others, as long
as there is room.  `kept` and `new` are those of this round so far, the last one first. -/
def walkRound {α : Type} (visit : α → Walk → α × Bool) (a : α) (kept new : List Walk) :
    List Walk → α × List Walk
  | [] => (a, kept.reverse ++ new.reverse)
  | w :: ws =>
    let (a, stops) := visit a w
    match w.stack.ways with
    | [] => walkRound visit a kept new ws
    | way :: others =>
      if stops then walkRound visit a kept new ws
      else
        let room := mostWalks - (kept.length + 1 + ws.length + new.length)
        walkRound visit a (w.down way :: kept) (((others.take room).map w.down).reverse ++ new) ws

def walkFrom {α : Type} (visit : α → Walk → α × Bool) : Nat → α → List Walk → α
  | 0, a, _ => a
  | rounds + 1, a, ws =>
    if ws.isEmpty then a
    else
      let (a, ws) := walkRound visit a [] [] ws
      walkFrom visit rounds a ws

/-- walk down from the top on all ways -/
def walk {α : Type} (visit : α → Walk → α × Bool) (a : α) (s : Stack) : α :=
  walkFrom visit (s.height + 1) a [⟨s, [], 0⟩]

/-- a frame with the trees above it, once for each walk that has come down to it -/
structure Slice where
  stack : Stack
  first : List Tree
  others : List (List Tree)

def addSlice (w : Walk) : List Slice → List Slice
  | [] => [⟨w.stack, w.trees, []⟩]
  | s :: ss =>
    if s.stack.id == w.stack.id then { s with others := s.others ++ [w.trees] } :: ss
    else s :: addSlice w ss

/-- take a number of trees from the top -/
def pop (n : Nat) (s : Stack) : List Slice :=
  s.walk (fun ss w => if w.depth == n then (addSlice w ss, true) else (ss, false)) []

/-- all trees from the bottom on -/
def popAll (s : Stack) : List Slice :=
  s.walk (fun ss w => if w.stack.ways.isEmpty then (addSlice w ss, true) else (ss, false)) []

/-- take an error from the top, if one is there -/
def popError? (s : Stack) : Option (Tree × Stack) :=
  s.ways.findSome? fun w => w.1.bind fun t => if t.symbol == .error then some (t, w.2) else none

/-! ## summary -/

/-- a frame that has been left behind -/
structure Earlier where
  place : Place
  depth : Nat
  state : State

/-- how far back a summary goes -/
def summaryDepth : Nat := 16

/-- the last frames, the top first, each state once at each depth -/
def summary (s : Stack) : List Earlier :=
  (s.walk (fun es w =>
    if summaryDepth < w.depth then (es, true)
    else if (es.takeWhile (w.depth ≤ ·.depth)).any fun e =>
        e.depth == w.depth && e.state == w.stack.state then (es, false)
    else (⟨w.stack.place, w.depth, w.stack.state⟩ :: es, false)) []).reverse

end Stack

end PageFuzz.Markup
