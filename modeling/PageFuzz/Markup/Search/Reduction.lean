import PageFuzz.Markup.Search.Basic

/-!
# Building phrases

Where a phrase is complete, its parts are taken from the stack and the phrase is put there
instead.  Where the whole text has been read, all that is on the stack makes the tree of it.
-/

namespace PageFuzz.Markup

namespace Search

/-- the phrase of the parts in a slice, and the trees after it that are no part of it -/
def phraseOf (p : Phrase) (s : Stack.Slice) : Tree × List Tree :=
  let build (ts : List Tree) : Tree × List Tree :=
    let (parts, rest) := Tree.splitExtra ts
    (.branch (.phrase p) s.stack.place parts, rest)
  s.others.foldl (fun made ts =>
    let other := build ts
    if made.1.yieldsTo other.1 then other else made) (build s.first)

/-- one more attempt, which has put a phrase in the place of its parts; it is joined with another
one that has come to the same point -/
def addReduced (i : Nat) (a : Attempt) (p : Phrase) (x : Search) (s : Stack.Slice) : Search :=
  let (t, rest) := phraseOf p s
  let next := (s.stack.state.goto p).getD .error
  let j := x.size
  let x := (x.add (a.backTo s.stack)).pushAll j (t :: rest) next
  (x.joinAny? ((List.range j).filter (· != i)) j).getD x

/-- Put a phrase in the place of its parts.  The attempt stays as it is; those that have the
phrase follow after all others. -/
def reduce (i : Nat) (p : Phrase) (parts : Nat) (x : Search) : Search :=
  match x.get? i with
  | some a => (a.stack.pop parts).foldl (addReduced i a p) x
  | none => x

/-- The tree of a whole text.  The last tree that is part of a phrase gives its name to it and its
children to the others beside it. -/
def wholeOf (p : Place) (ts : List Tree) : Option Tree :=
  let (body, rest) := Tree.splitExtra ts
  body.getLast?.map fun t => .branch t.symbol p (body.dropLast ++ t.children ++ rest)

/-- an attempt has read the whole text -/
def accept (i : Nat) (ahead : Lookahead) (x : Search) : Search :=
  let x := x.push i ahead.tree.asExtra .start
  match x.get? i with
  | some a =>
    let trees := a.stack.popAll.flatMap fun s => (s.first :: s.others).filterMap (wholeOf a.place)
    (trees.foldl (fun x t => x.offer t) x).modify i Attempt.halt
  | none => x

end Search

end PageFuzz.Markup
