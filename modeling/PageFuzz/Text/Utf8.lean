/-!
# UTF-8 with damage

Bytes as characters, where some bytes may not belong to any.  `pieces` cuts a byte text into
characters and damaged pieces; a damaged piece is the longest start of a character that the
next byte breaks off.  `lossy` writes U+FFFD for each damaged piece.
-/

namespace PageFuzz.Text.Utf8

/-- Between two characters, or inside one: `owed` bytes are still to come, the next of them
between `least` and `greatest`, and `value` holds the bits so far. -/
inductive State where
  | idle
  | inside (owed : Nat) (least greatest : Nat) (value : Nat)

/-- the first byte of a character, or a byte that starts none -/
def first (b : Nat) : List (Option Char) × State :=
  if b < 0x80 then ([some (Char.ofNat b)], .idle)
  else if 0xC2 ≤ b && b ≤ 0xDF then ([], .inside 1 0x80 0xBF (b - 0xC0))
  else if b == 0xE0 then ([], .inside 2 0xA0 0xBF 0)
  else if b == 0xED then ([], .inside 2 0x80 0x9F 0xD)
  else if 0xE1 ≤ b && b ≤ 0xEF then ([], .inside 2 0x80 0xBF (b - 0xE0))
  else if b == 0xF0 then ([], .inside 3 0x90 0xBF 0)
  else if 0xF1 ≤ b && b ≤ 0xF3 then ([], .inside 3 0x80 0xBF (b - 0xF0))
  else if b == 0xF4 then ([], .inside 3 0x80 0x8F 4)
  else ([none], .idle)

/-- one byte: the pieces that it completes and the state after it -/
def step : State → Nat → List (Option Char) × State
  | .idle, b => first b
  | .inside owed least greatest value, b =>
    if least ≤ b && b ≤ greatest then
      let value' := 64 * value + (b - 0x80)
      if owed ≤ 1 then ([some (Char.ofNat value')], .idle)
      else ([], .inside (owed - 1) 0x80 0xBF value')
    else (none :: (first b).1, (first b).2)

/-- what is left open at the end of the bytes -/
def State.close : State → List (Option Char)
  | .idle => []
  | .inside .. => [none]

def piecesFrom : State → List UInt8 → List (Option Char)
  | q, [] => q.close
  | q, b :: bs => (step q b.toNat).1 ++ piecesFrom (step q b.toNat).2 bs

/-- the characters of a byte text, `none` for each damaged piece -/
def pieces (bs : List UInt8) : List (Option Char) := piecesFrom .idle bs

/-- the same as `piecesFrom`, with the pieces so far in reverse -/
def gather (out : List Char) : State → List UInt8 → List Char
  | q, [] => (q.close.map (·.getD '\uFFFD')).reverse ++ out
  | q, b :: bs =>
    gather (((step q b.toNat).1.map (·.getD '\uFFFD')).reverse ++ out) (step q b.toNat).2 bs

theorem gather_eq (out : List Char) (q : State) (bs : List UInt8) :
    gather out q bs = ((piecesFrom q bs).map (·.getD '\uFFFD')).reverse ++ out := by
  induction bs generalizing q out with
  | nil => rfl
  | cons b bs ih => simp [gather, piecesFrom, ih]

/-- a byte text as characters, with U+FFFD for each damaged piece -/
def lossy (bs : List UInt8) : String := String.ofList (gather [] .idle bs).reverse

theorem lossy_eq (bs : List UInt8) :
    lossy bs = String.ofList ((pieces bs).map (·.getD '\uFFFD')) := by
  simp [lossy, gather_eq, pieces]

end PageFuzz.Text.Utf8
