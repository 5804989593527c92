import PageFuzz.Markup.Search.Reduction

/-!
# Repairing errors

Where nothing fits what stands ahead, an attempt puts in a token that is missing, goes back to an
earlier state in which what stands ahead fits, or passes over what stands ahead.
-/

namespace PageFuzz.Markup

namespace Search

/-- the most attempts that are kept at a time -/
def mostAttempts : Nat := 6

/-! ## phrases that may be complete -/

/-- whether a state takes a token as it is, or, if none is given, some token -/
def takesAhead (s : State) : Option Token → Bool
  | some t => s.takes t
  | none => Token.all.any s.takes

/-- the phrase that is complete in a state before a token, or, if none is given, before some
token -/
def completedAhead? (s : State) : Option Token → Option (Phrase × Nat)
  | some t => s.completed? t
  | none => s.completion?

/-- Build all phrases that may be complete before a token, or, if none is given, before some
token, from the attempt `i` on.  `first` is the attempt with which this has begun; those that
follow from it come after the `older` ones.  The attempts that cannot take the token are dropped;
the answer also says whether one of them can. -/
def settleFrom (ahead : Option Token) (first older : Nat) :
    (fuel : Nat) → (rounds i : Nat) → (canTake : Bool) → Search → Bool × Search
  | 0, _, _, canTake, x => (canTake, x)
  | fuel + 1, rounds, i, canTake, x =>
    match x.get? i with
    | none => (canTake, x)
    | some a =>
      match x.joinAny? (List.range' older (i - older)) i with
      | some x => settleFrom ahead first older fuel (rounds + 1) i canTake x
      | none =>
        let size := x.size
        let next := if i == first then size else i + 1
        let x := (completedAhead? a.state ahead).elim x fun (p, parts) => x.reduce i p parts
        if takesAhead a.state ahead then
          settleFrom ahead first older fuel (rounds + 1) next true x
        else if size < x.size && rounds < mostAttempts then
          settleFrom ahead first older fuel (rounds + 1) i canTake (x.replace i size)
        else
          let x := if ahead.isSome then x.erase i else x
          settleFrom ahead first older fuel (rounds + 1) next canTake x

/-- more attempts than can follow from one -/
def settleFuel : Nat := 1000

def settle (ahead : Option Token) (i : Nat) (x : Search) : Bool × Search :=
  settleFrom ahead i x.size settleFuel 0 i false x

/-! ## a missing token -/

/-- try whether a missing token lets an attempt take what stands ahead -/
def tryMissing (i : Nat) (ahead t : Token) (x : Search) : Bool × Search :=
  match x.get? i with
  | none => (false, x)
  | some a =>
    match a.state.next t with
    | none => (false, x)
    | some s =>
      if s == a.state || (s.completed? ahead).isNone then (false, x)
      else
        let j := x.size
        let x := (x.add { a with earlier := [] }).push j (.missing t a.place) s
        x.settle (if ahead = .endOfText then none else some ahead) j

/-- try all tokens that can be missing, up to the first one that helps -/
def tryAllMissing (i : Nat) (ahead : Token) : List Token → Search → Bool × Search
  | [], x => (false, x)
  | t :: ts, x =>
    match x.tryMissing i ahead t with
    | (true, x) => (true, x)
    | (false, x) => tryAllMissing i ahead ts x

/-- Start an error in some attempts, unless a missing token has helped already; each of them first
tries what may be missing. -/
def startErrors (ahead : Lookahead) : (helped : Bool) → List Nat → Search → Search
  | _, [], x => x
  | helped, i :: is, x =>
    let (helped, x) :=
      match helped, ahead.token with
      | false, some t => x.tryAllMissing i t Token.all
      | _, _ => (helped, x)
    startErrors ahead helped is (x.pushError i)

/-! ## going back -/

/-- whether an attempt that comes to a cost is not worth while, as there is a better one -/
def hasBetter (i : Nat) (cost : Nat) (x : Search) : Bool :=
  x.best.any (·.cost ≤ cost) ||
    (x.get? i).any fun a =>
      x.attempts.zipIdx.any fun (b, j) =>
        j != i && b.isActive && !b.place.isBefore a.place &&
          match (Standing.mk cost a.progress false).compare b.standing with
          | .takeSecond => true
          | .preferSecond => b.canJoin a
          | _ => false

/-- one more attempt, which goes on from an earlier frame; all that was read since is an error -/
def addReturned (a : Attempt) (goal : State) (x : Search) (s : Stack.Slice) : Search :=
  if s.stack.state != goal then x
  else
    let (body, rest) := Tree.splitExtra s.first
    let (stack, errors) :=
      match s.stack.popError? with
      | some (e, below) => (below, [e.extend body])
      | none => (s.stack, if body.isEmpty then [] else [.branch .error a.place body])
    (x.add (a.backTo stack)).pushAll x.size (errors.map Tree.asExtra ++ rest) goal

/-- go back to the first frame of a summary in which a token fits, if it is worth while -/
def returnTo? (i : Nat) (a : Attempt) (ahead : Token) (x : Search) :
    List Stack.Earlier → Option Search
  | [] => none
  | e :: es =>
    if e.state == .error || e.place.offset == a.place.offset then returnTo? i a ahead x es
    else if x.attempts.any fun b =>
        b.state == e.state && b.place.offset == a.place.offset then returnTo? i a ahead x es
    else if x.hasBetter i (a.cost + Cost.tree * e.depth + Cost.ofText e.place a.place) then none
    else
      let depth := if 0 < a.progress then e.depth + 1 else e.depth
      let y := if e.state.expects ahead then (a.stack.pop depth).foldl (addReturned a e.state) x
        else x
      if x.size < y.size then some y else returnTo? i a ahead x es

/-! ## passing over -/

/-- pass over what stands ahead -/
def skip (i : Nat) (ahead : Lookahead) (x : Search) : Search :=
  match x.get? i with
  | none => x
  | some a =>
    let passed := Tree.branch .skipped a.place [ahead.tree]
    let (x, t) :=
      match if 0 < a.progress then a.stack.pop 1 else [] with
      | [] => (x, passed)
      | s :: _ =>
        (x.modify i fun _ => { a.backTo s.stack with earlier := a.earlier },
          .branch .skipped a.place (s.first ++ [passed]))
    (x.push i t .error).modify i (Attempt.noteTags ahead)

/-- the most that an attempt in an error can do with what stands ahead -/
def recover (i : Nat) (ahead : Lookahead) (x : Search) : Search :=
  match x.get? i with
  | none => x
  | some a =>
    let returned := ahead.token.bind fun t => x.returnTo? i a t a.earlier
    let x := returned.getD x
    if ahead.isEnd then (x.push i (.branch .error a.place []) .start).accept i ahead
    else if returned.isSome && (mostAttempts < x.size || ahead.changesTags) then
      x.modify i Attempt.halt
    else if x.hasBetter i (a.cost + Cost.tree + Cost.ofText ahead.before ahead.stop) then
      x.modify i Attempt.halt
    else x.skip i ahead

/-- an attempt comes to an error -/
def repair (i : Nat) (ahead : Lookahead) (x : Search) : Search :=
  let older := x.size
  let (_, x) := x.settle none i
  let later := List.range' older (x.size - older)
  let x := x.startErrors ahead false (i :: later)
  let x := later.foldl (fun x _ => (x.join? i older).getD x) x
  (x.modify i fun a => { a with earlier := a.stack.summary }).recover i ahead

end Search

end PageFuzz.Markup
