/-!
# Choosers

A chooser answers "which of `n` alternatives?", drawing on a state of its own.  Its answer may be
out of range; whoever asks clamps it.
-/

namespace PageFuzz

structure Chooser (σ : Type) where
  pick : σ → Nat → Nat × σ

/-- one question and its answer, before clamping -/
structure Draw where
  count : Nat
  pick : Nat
deriving DecidableEq, Repr

/-- the draw with its answer in range -/
def Draw.clamped (d : Draw) : Draw := { d with pick := min d.pick (d.count - 1) }

namespace Chooser

/-- a list of answers, one after another, and then the same answer for ever -/
def scripted (fallback : Nat) : Chooser (List Nat) where
  pick
    | [], _ => (fallback, [])
    | p :: ps, _ => (p, ps)

/-- the same chooser, with all its draws so far beside its state -/
def recording {σ : Type} (c : Chooser σ) : Chooser (σ × Array Draw) where
  pick s n :=
    let answer := c.pick s.1 n
    (answer.1, answer.2, s.2.push ⟨n, answer.1⟩)

end Chooser

end PageFuzz
