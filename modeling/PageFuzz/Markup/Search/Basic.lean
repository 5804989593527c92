import PageFuzz.Markup.Attempt

/-!
# The search for the best reading

The attempts at a text, in the order in which they are preferred, and the best tree that has been
found for the whole of it.  An attempt is known by its place among the others.
-/

namespace PageFuzz.Markup

structure Search where
  attempts : List Attempt
  /-- the best tree of the whole text so far -/
  best : Option Tree
  /-- how many trees of the whole text have been found -/
  found : Nat
  /-- the number of the next frame of a stack -/
  nextId : Nat

namespace Search

def ofText (p : Place) : Search := ⟨[.ofText p], none, 0, 1⟩

def size (x : Search) : Nat := x.attempts.length

def get? (i : Nat) (x : Search) : Option Attempt := x.attempts[i]?

def modify (i : Nat) (f : Attempt → Attempt) (x : Search) : Search :=
  { x with attempts := x.attempts.modify i f }

def erase (i : Nat) (x : Search) : Search := { x with attempts := x.attempts.eraseIdx i }

/-- one more attempt, after all others -/
def add (a : Attempt) (x : Search) : Search := { x with attempts := x.attempts ++ [a] }

def push (i : Nat) (t : Tree) (s : State) (x : Search) : Search :=
  { x.modify i (Attempt.push x.nextId t s) with nextId := x.nextId + 1 }

def pushAll (i : Nat) (ts : List Tree) (s : State) (x : Search) : Search :=
  ts.foldl (fun x t => x.push i t s) x

def pushError (i : Nat) (x : Search) : Search :=
  { x.modify i (Attempt.pushError x.nextId) with nextId := x.nextId + 1 }

/-- join an attempt with one before it, if they have come to the same point -/
def join? (i j : Nat) (x : Search) : Option Search :=
  match x.get? i, x.get? j with
  | some a, some b => if a.canJoin b then some ((x.modify i (·.join b)).erase j) else none
  | _, _ => none

/-- join an attempt with the first of some others that has come to the same point -/
def joinAny? (is : List Nat) (j : Nat) (x : Search) : Option Search :=
  is.findSome? fun i => x.join? i j

/-- A later attempt takes the place of an earlier one, and with it what the earlier one knew of
the frames before its last error. -/
def replace (i j : Nat) (x : Search) : Search :=
  match x.get? i, x.get? j with
  | some a, some b =>
    let b := if b.earlier.isEmpty then { b with earlier := a.earlier } else b
    (x.modify i fun _ => b).erase j
  | _, _ => x

/-- whether a tree of the whole text takes the place of the best one so far -/
def isBetter (x : Search) (t : Tree) : Bool := x.best.all (·.yieldsTo t)

/-- one more tree of the whole text -/
def offer (t : Tree) (x : Search) : Search :=
  { x with best := if x.isBetter t then some t else x.best, found := x.found + 1 }

end Search

end PageFuzz.Markup
