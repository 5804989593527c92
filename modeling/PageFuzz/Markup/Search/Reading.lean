import PageFuzz.Markup.Search.Selection

/-!
# Reading a text

All attempts read on by turns, each until it comes further than any attempt before it.  `best`
gives the tree of the whole text with the fewest and smallest errors that has been found.
-/

namespace PageFuzz.Markup

namespace Search

/-- what an attempt does with what stands ahead; phrases that are complete are built first -/
def take (i : Nat) (ahead : Lookahead) : (fuel : Nat) → Search → Search
  | 0, x => x.modify i Attempt.halt
  | fuel + 1, x =>
    match x.get? i, ahead.token with
    | none, _ => x
    | some a, none => x.modify i fun _ => a.pause ahead
    | some a, some t =>
      if t = .comment then (x.push i ahead.tree.asExtra a.state).modify i (Attempt.noteTags ahead)
      else if a.state = .error && a.state.expects t then x.recover i ahead
      else if a.state = .finished && a.state.expects t then x.accept i ahead
      else
        match a.state.completed? t with
        | some (p, parts) =>
          let size := x.size
          let x := x.reduce i p parts
          if size < x.size then take i ahead fuel (x.replace i size) else x.modify i Attempt.halt
        | none =>
          match a.state.next t with
          | some s => (x.push i ahead.tree s).modify i (Attempt.noteTags ahead)
          | none => x.modify i fun _ => a.pause ahead

/-- an attempt reads one token -/
def advance (i : Nat) (x : Search) : Search :=
  match x.get? i with
  | none => x
  | some a => x.take i (.read a.state a.tags a.place) (2 * a.stack.height + 8)

/-- Go on with the attempt `i` and the others by turns.  `furthest` is how far any attempt has
come. -/
def run : (fuel : Nat) → (furthest i : Nat) → Search → Search
  | 0, _, _, x => x
  | fuel + 1, furthest, i, x =>
    match x.get? i with
    | none =>
      match x.condense with
      | (true, x) => run fuel furthest 0 x
      | (false, x) => x
    | some a =>
      if a.isActive then
        let x := x.advance i
        let offset := (x.get? i).elim 0 (·.place.offset)
        if furthest < offset || (0 < i && furthest == offset) then run fuel offset (i + 1) x
        else run fuel furthest i x
      else run fuel furthest (i + 1) x

/-- a bound on the turns that a text of some length takes -/
def turns (length : Nat) : Nat := 64 * (length + 16)

/-- the best tree of a text -/
def bestOf (source : String) : Tree :=
  let p := Place.ofText source
  let x := (ofText p).run (turns p.rest.length) 0 0
  x.best.getD (.branch .error p [])

end Search

end PageFuzz.Markup
