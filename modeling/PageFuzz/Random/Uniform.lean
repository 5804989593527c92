import PageFuzz.Random.Keystream

/-!
# An unbiased pick below a bound

A word `v` of 64 bits picks `v * n / 2 ^ 64` out of the numbers below `n`.  Each number would be
hit by nearly the same count of words; refusing the words whose product leaves a remainder above
`zone n` makes the counts equal, a power of two each.
-/

namespace PageFuzz.Random

/-- the greatest remainder that is not refused: `n` shifted up until its top bit is set, less one -/
def zone (n : Nat) : Nat := (n <<< (63 - n.log2)) - 1

/-- the number below `n` that a word stands for -/
def share (n : Nat) (v : UInt64) : Nat := v.toNat * n / UInt64.size

def accepts (n : Nat) (v : UInt64) : Bool := v.toNat * n % UInt64.size ≤ zone n

theorem share_lt {n : Nat} (h : 0 < n) (v : UInt64) : share n v < n := by
  have hv : v.toNat < UInt64.size := v.toNat_lt
  unfold share
  exact (Nat.div_lt_iff_lt_mul (by decide)).mpr
    (by rw [Nat.mul_comm n]; exact (Nat.mul_lt_mul_right h).mpr hv)

/-- How many words in a row may be refused.  At least half of all words are accepted, so a stream
that reaches this bound is none that anybody will see; the word after it is taken as it is. -/
def patience : Nat := 65536

namespace RandomStream

/-- the first accepted word's share, after at most `fuel` refused words -/
def belowWithin (n : Nat) : Nat → RandomStream → Nat × RandomStream
  | 0, s => (share n s.word64.1, s.word64.2)
  | fuel + 1, s =>
    let v := s.word64
    if accepts n v.1 then (share n v.1, v.2) else belowWithin n fuel v.2

/-- a number below `n`, each with the same chance -/
def below (n : Nat) (s : RandomStream) : Nat × RandomStream := belowWithin n patience s

theorem belowWithin_lt {n : Nat} (h : 0 < n) (fuel : Nat) (s : RandomStream) :
    (belowWithin n fuel s).1 < n := by
  induction fuel generalizing s with
  | zero => exact share_lt h _
  | succ fuel ih =>
    simp only [belowWithin]
    split
    · exact share_lt h _
    · exact ih _

theorem below_lt {n : Nat} (h : 0 < n) (s : RandomStream) : (s.below n).1 < n :=
  belowWithin_lt h patience s

end RandomStream

end PageFuzz.Random
