import PageFuzz.Derivation.Expander

/-!
# Expansion, round by round

The same expansion as `Expander.generate`, with the whole sequences on the stack and beside each the
number of its symbols that have been read.  `rounds` counts how often the loop has gone round, and
goes on for ever with what it has ended with.
-/

namespace PageFuzz

/-- a sequence and the place of its next symbol -/
structure Frame where
  symbols : List Symbol
  next : Nat

/-- the sequences that are being read, the innermost first, and the text so far -/
structure Reading where
  frames : List Frame
  text : String

namespace Expander

inductive Round where
  | done (result : Except ExpansionError String)
  | next (r : Reading)

def Round.ofExcept : Except ExpansionError Reading → Round
  | .error err => .done (.error err)
  | .ok r => .next r

/-- one more piece of text -/
def emit (e : Expander) (piece : String) (r : Reading) : Except ExpansionError Reading :=
  (e.limits.append r.text piece).map fun text => { r with text }

/-- choose an alternative of a name and put it to work -/
def visit {σ : Type} (e : Expander) (c : Chooser σ) (name : String) (r : Reading) (s : σ) :
    Except ExpansionError Reading × σ :=
  match e.grammar.alternatives? name with
  | some (a :: alts) =>
    let answer := c.pick s (alts.length + 1)
    match clamped a alts answer.1 with
    | .literal piece => (e.emit piece r, answer.2)
    | .sequence symbols =>
      if e.limits.maxDepth ≤ r.frames.length then
        (.error (.depthExceeded e.limits.maxDepth), answer.2)
      else (.ok { r with frames := ⟨symbols, 0⟩ :: r.frames }, answer.2)
  | _ => (.error (.grammar (.undefined name none)), s)

/-- once round the loop -/
def round {σ : Type} (e : Expander) (c : Chooser σ) (r : Reading) (s : σ) : Round × σ :=
  match r.frames with
  | [] => (.done (.ok r.text), s)
  | f :: fs =>
    let onward : Reading := { r with frames := { f with next := f.next + 1 } :: fs }
    match f.symbols[f.next]? with
    | none => (.next { r with frames := fs }, s)
    | some (.terminal piece) => (.ofExcept (e.emit piece onward), s)
    | some (.nonterminal name) => (e.visit c name onward s).map Round.ofExcept id

/-- the loop after so many rounds, from the start symbol on -/
def rounds {σ : Type} (e : Expander) (c : Chooser σ) (start : String) (s : σ) : Nat → Round × σ
  | 0 => (e.visit c start ⟨[], ""⟩ s).map Round.ofExcept id
  | n + 1 =>
    match e.rounds c start s n with
    | (.next r, s) => e.round c r s
    | ended => ended

end Expander

end PageFuzz
