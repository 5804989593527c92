import PageFuzz.Random.Keystream
import PageFuzz.Random.Sha256
import PageFuzz.Session.ConfigError
import PageFuzz.Text.Numeral

/-!
# Seeds

A seed is a decimal numeral with an optional fraction, kept as the text that it was given by.  The
digest of that text is the key of the seed's random stream.
-/

namespace PageFuzz

/-- one or more digits, and then nothing, or a point and one or more digits -/
def isSeedText (cs : List Char) : Bool :=
  match cs.splitOnP (· == '.') with
  | [whole] => Text.isDigits whole
  | [whole, fraction] => Text.isDigits whole && Text.isDigits fraction
  | _ => false

structure Seed where
  text : String
  isSeed : isSeedText text.toList = true
deriving DecidableEq, Repr

namespace Seed

def ofString (s : String) : Except ConfigError Seed :=
  if h : isSeedText s.toList then .ok ⟨s, h⟩ else .error (.invalidSeed s)

theorem ofString_text (seed : Seed) : ofString seed.text = .ok seed := by
  simp [ofString, seed.isSeed]

/-- the random stream of a seed, at its start -/
def stream (seed : Seed) : Random.RandomStream :=
  .ofKey (.ofDigest (Random.Sha256.digest seed.text.toByteArray))

/-- the order of the texts -/
def le (a b : Seed) : Bool := decide (a.text ≤ b.text)

end Seed

end PageFuzz
