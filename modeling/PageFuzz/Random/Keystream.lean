/-!
# The key stream of the ChaCha cipher with twelve rounds

A block is a function of the key and of the block's number: sixteen words, mixed by six double
rounds and added to themselves as they were.  The stream of a key is its blocks one after
another, read word by word.
-/

namespace PageFuzz.Random

abbrev Key := Vector UInt32 8

/-- the four bytes of a word in the opposite order -/
def reverseBytes (w : UInt32) : UInt32 :=
  (w <<< 24) ||| ((w &&& (0xFF00 : UInt32)) <<< 8) ||| ((w >>> 8) &&& (0xFF00 : UInt32)) |||
    (w >>> 24)

/-- a digest as a key: its bytes stay in order, and a key reads them with the low byte first -/
def Key.ofDigest (digest : Vector UInt32 8) : Key := digest.map reverseBytes

namespace Keystream

def rotateLeft (x : UInt32) (n : UInt32) : UInt32 := (x <<< n) ||| (x >>> (32 - n))

def quarterRound (a b c d : Fin 16) (v : Vector UInt32 16) : Vector UInt32 16 :=
  let half := fun (turn turn' : UInt32) (v : Vector UInt32 16) =>
    let v := v.set a (v[a] + v[b])
    let v := v.set d (rotateLeft (v[d] ^^^ v[a]) turn)
    let v := v.set c (v[c] + v[d])
    v.set b (rotateLeft (v[b] ^^^ v[c]) turn')
  half 8 7 (half 16 12 v)

/-- the four columns, then the four diagonals -/
def doubleRound (v : Vector UInt32 16) : Vector UInt32 16 :=
  let v := quarterRound 3 7 11 15 (quarterRound 2 6 10 14
    (quarterRound 1 5 9 13 (quarterRound 0 4 8 12 v)))
  quarterRound 3 4 9 14 (quarterRound 2 7 8 13
    (quarterRound 1 6 11 12 (quarterRound 0 5 10 15 v)))

/-- the words before the rounds: four constants, the key, the block's number as two words with
the low one first, and two zero words -/
def initial (key : Key) (number : Nat) : Vector UInt32 16 :=
  (#v[0x61707865, 0x3320646E, 0x79622D32, 0x6B206574] : Vector UInt32 4) ++ key ++
    (#v[number.toUInt32, (number / UInt32.size).toUInt32, 0, 0] : Vector UInt32 4)

def block (key : Key) (number : Nat) : Vector UInt32 16 :=
  let start := initial key number
  (Nat.repeat doubleRound 6 start).zipWith (· + ·) start

end Keystream

/-- A place in the stream of a key: the words of the current block that are not read yet, and the
number of the next block. -/
structure RandomStream where
  key : Key
  pending : List UInt32
  next : Nat

namespace RandomStream

/-- the stream of a key, at its start -/
def ofKey (key : Key) : RandomStream := ⟨key, [], 0⟩

def word (s : RandomStream) : UInt32 × RandomStream :=
  match s.pending with
  | w :: ws => (w, { s with pending := ws })
  | [] =>
    let b := Keystream.block s.key s.next
    (b[0], ⟨s.key, b.toList.tail, s.next + 1⟩)

/-- two words as one of 64 bits, the low one first -/
def word64 (s : RandomStream) : UInt64 × RandomStream :=
  let low := s.word
  let high := low.2.word
  (low.1.toUInt64 ||| (high.1.toUInt64 <<< 32), high.2)

end RandomStream

end PageFuzz.Random
