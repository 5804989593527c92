import PageFuzz.Derivation.Chooser
import PageFuzz.Random.Uniform

/-!
# The random chooser

Draws from a random stream, each alternative with the same chance.
-/

namespace PageFuzz.Chooser

def uniform : Chooser Random.RandomStream where
  pick s n := s.below n

theorem uniform_pick_lt {n : Nat} (h : 0 < n) (s : Random.RandomStream) :
    (uniform.pick s n).1 < n := Random.RandomStream.below_lt h s

end PageFuzz.Chooser
