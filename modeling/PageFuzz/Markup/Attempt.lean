import PageFuzz.Markup.Lookahead
import PageFuzz.Markup.Stack

/-!
# Attempts

A text that breaks the rules can be read in several ways, and several attempts at it are made side
by side.  Which of two attempts is the better one is told by what their errors cost and by how
much each has read since its last error (`Standing.compare`).
-/

namespace PageFuzz.Markup

inductive Status where
  | active
  /-- nothing fits what stands ahead -/
  | paused (ahead : Lookahead)
  | halted

structure Attempt where
  stack : Stack
  /-- the open tags, once a token has depended on them -/
  tags : Option OpenTags
  status : Status
  /-- the count of the stack at the last error, or less if the stack has been taken down since -/
  countAtError : Nat
  /-- the frames before the last error -/
  earlier : List Stack.Earlier

/-- how good an attempt is -/
structure Standing where
  cost : Nat
  /-- how much it has read since its last error -/
  progress : Nat
  isInError : Bool

inductive Verdict where
  /-- the first is so much better that the second is given up -/
  | takeFirst
  | preferFirst
  | neither
  | preferSecond
  | takeSecond
deriving DecidableEq, Repr

namespace Standing

/-- a difference in cost from which on the worse attempt is given up, weighed by the progress of
the better one -/
def mostDifference : Nat := 18 * Cost.tree

/-- whether an attempt that costs less is so much better that the other one is given up -/
def outdoes (a b : Standing) : Bool := mostDifference < (b.cost - a.cost) * (1 + a.progress)

def compare (a b : Standing) : Verdict :=
  match a.isInError, b.isInError with
  | false, true => if a.cost < b.cost then .takeFirst else .preferFirst
  | true, false => if b.cost < a.cost then .takeSecond else .preferSecond
  | _, _ =>
    if a.cost < b.cost then if a.outdoes b then .takeFirst else .preferFirst
    else if b.cost < a.cost then if b.outdoes a then .takeSecond else .preferSecond
    else .neither

end Standing

namespace Attempt

def ofText (p : Place) : Attempt := ⟨.bottom p, none, .active, 0, []⟩

def state (a : Attempt) : State := a.stack.state

def place (a : Attempt) : Place := a.stack.place

def isActive (a : Attempt) : Bool :=
  match a.status with
  | .active => true
  | _ => false

def isHalted (a : Attempt) : Bool :=
  match a.status with
  | .halted => true
  | _ => false

def isPaused (a : Attempt) : Bool :=
  match a.status with
  | .paused _ => true
  | _ => false

def halt (a : Attempt) : Attempt := { a with status := .halted }

/-- wait, as nothing fits what stands ahead -/
def pause (a : Attempt) (ahead : Lookahead) : Attempt :=
  { a with status := .paused ahead, countAtError := a.stack.count }

/-- an attempt that goes on from a lower frame of its stack -/
def backTo (a : Attempt) (s : Stack) : Attempt :=
  { a with stack := s, status := .active, earlier := [] }

/-- a new frame on top of the stack -/
def push (id : Nat) (tree : Tree) (s : State) (a : Attempt) : Attempt :=
  let stack := a.stack.push id (some tree) s
  { a with stack := stack, countAtError := min a.countAtError stack.count }

/-- a new frame on top of the stack where an error starts -/
def pushError (id : Nat) (a : Attempt) : Attempt :=
  { a with stack := a.stack.push id none .error, countAtError := a.stack.count }

/-- note which tags are open after a token -/
def noteTags (l : Lookahead) (a : Attempt) : Attempt :=
  match l.tags with
  | some tags => { a with tags := some tags }
  | none => a

def cost (a : Attempt) : Nat :=
  if a.isPaused || a.stack.startsError then a.stack.cost + Cost.error else a.stack.cost

def progress (a : Attempt) : Nat := a.stack.count - a.countAtError

def standing (a : Attempt) : Standing :=
  ⟨if a.isPaused then a.cost + Cost.tree else a.cost, a.progress,
    a.isPaused || a.state == .error⟩

/-- whether two attempts have come to the same point -/
def canJoin (a b : Attempt) : Bool :=
  a.isActive && b.isActive && a.stack.meets b.stack && a.tags == b.tags

/-- two attempts as one -/
def join (a b : Attempt) : Attempt :=
  let stack := a.stack.join b.stack
  { a with
    stack := stack
    countAtError := if a.state == .error then stack.count else a.countAtError }

end Attempt

end PageFuzz.Markup
