import PageFuzz.Markup.Search.Repair

/-!
# Selecting attempts

After each round the attempts are compared with each other: those that are much worse than another
one are given up, those that have come to the same point are joined, and the better ones come
first.
-/

namespace PageFuzz.Markup

namespace Search

/-- Compare an attempt with those that are kept.  `standing` is the standing with which this has
begun, also where `a` has changed places with a worse attempt. -/
def place (standing : Standing) (a : Attempt) : List Attempt → List Attempt
  | [] => [a]
  | b :: bs =>
    match b.standing.compare standing with
    | .takeFirst => b :: bs
    | .preferFirst | .neither =>
      if b.canJoin a then b.join a :: bs else b :: place standing a bs
    | .preferSecond => if b.canJoin a then b.join a :: bs else a :: place standing b bs
    | .takeSecond => place standing a bs

/-- the attempts that are kept, the better ones first -/
def select (as : List Attempt) : List Attempt :=
  let kept := (as.filter (!·.isHalted)).foldl (fun kept a => place a.standing a kept) []
  kept.take mostAttempts

/-- what the cheapest of all attempts costs that are in no error, if there is one -/
def leastCost? (as : List Attempt) : Option Nat :=
  ((as.filter (!·.isHalted)).filterMap fun a =>
    let s := a.standing
    if s.isInError then none else some s.cost).min?

/-- If all attempts wait, the first one is repaired.  The others that wait are given up.  The
answer also gives the cost of the attempt that is repaired. -/
def resume (x : Search) : Option Nat × Search :=
  let others (as : List Attempt) : List Attempt := as.filter (!·.isPaused)
  match x.attempts with
  | [] => (none, x)
  | a :: as =>
    match a.status with
    | .paused ahead =>
      if x.found < mostAttempts then
        let x := { x with attempts := { a with status := .active } :: as }.repair 0 ahead
        (some a.cost, { x with attempts := others x.attempts })
      else (none, { x with attempts := others as })
    | _ => (none, { x with attempts := a :: others as })

/-- The attempts that are kept after a round, and whether the search goes on: it ends when the
best tree costs less than any attempt. -/
def condense (x : Search) : Bool × Search :=
  let least := leastCost? x.attempts
  let (cost, x) := { x with attempts := select x.attempts }.resume
  let least := cost <|> least
  (!x.attempts.isEmpty && x.best.all fun t => least.any (· ≤ t.cost), x)

end Search

end PageFuzz.Markup
