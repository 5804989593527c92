/-!
# SHA-256

The digest of a byte text as eight words: padding to whole blocks of 64 bytes, sixteen
big-endian words a block, extended to a schedule of 64, and one round per scheduled word.
-/

namespace PageFuzz.Random.Sha256

def rotateRight (x : UInt32) (n : UInt32) : UInt32 := (x >>> n) ||| (x <<< (32 - n))

/-- the first 32 bits of the fractional parts of the cube roots of the first 64 primes -/
def roundConstants : List UInt32 := [
  0x428A2F98, 0x71374491, 0xB5C0FBCF, 0xE9B5DBA5, 0x3956C25B, 0x59F111F1, 0x923F82A4, 0xAB1C5ED5,
  0xD807AA98, 0x12835B01, 0x243185BE, 0x550C7DC3, 0x72BE5D74, 0x80DEB1FE, 0x9BDC06A7, 0xC19BF174,
  0xE49B69C1, 0xEFBE4786, 0x0FC19DC6, 0x240CA1CC, 0x2DE92C6F, 0x4A7484AA, 0x5CB0A9DC, 0x76F988DA,
  0x983E5152, 0xA831C66D, 0xB00327C8, 0xBF597FC7, 0xC6E00BF3, 0xD5A79147, 0x06CA6351, 0x14292967,
  0x27B70A85, 0x2E1B2138, 0x4D2C6DFC, 0x53380D13, 0x650A7354, 0x766A0ABB, 0x81C2C92E, 0x92722C85,
  0xA2BFE8A1, 0xA81A664B, 0xC24B8B70, 0xC76C51A3, 0xD192E819, 0xD6990624, 0xF40E3585, 0x106AA070,
  0x19A4C116, 0x1E376C08, 0x2748774C, 0x34B0BCB5, 0x391C0CB3, 0x4ED8AA4A, 0x5B9CCA4F, 0x682E6FF3,
  0x748F82EE, 0x78A5636F, 0x84C87814, 0x8CC70208, 0x90BEFFFA, 0xA4506CEB, 0xBEF9A3F7, 0xC67178F2]

structure Registers where
  a : UInt32
  b : UInt32
  c : UInt32
  d : UInt32
  e : UInt32
  f : UInt32
  g : UInt32
  h : UInt32

namespace Registers

/-- the first 32 bits of the fractional parts of the square roots of the first 8 primes -/
def start : Registers :=
  ⟨0x6A09E667, 0xBB67AE85, 0x3C6EF372, 0xA54FF53A,
   0x510E527F, 0x9B05688C, 0x1F83D9AB, 0x5BE0CD19⟩

def round (r : Registers) (constant word : UInt32) : Registers :=
  let mixE := rotateRight r.e 6 ^^^ rotateRight r.e 11 ^^^ rotateRight r.e 25
  let choice := (r.e &&& r.f) ^^^ (~~~r.e &&& r.g)
  let up := r.h + mixE + choice + constant + word
  let mixA := rotateRight r.a 2 ^^^ rotateRight r.a 13 ^^^ rotateRight r.a 22
  let majority := (r.a &&& r.b) ^^^ (r.a &&& r.c) ^^^ (r.b &&& r.c)
  ⟨up + mixA + majority, r.a, r.b, r.c, r.d + up, r.e, r.f, r.g⟩

def add (r s : Registers) : Registers :=
  ⟨r.a + s.a, r.b + s.b, r.c + s.c, r.d + s.d, r.e + s.e, r.f + s.f, r.g + s.g, r.h + s.h⟩

def toVector (r : Registers) : Vector UInt32 8 := #v[r.a, r.b, r.c, r.d, r.e, r.f, r.g, r.h]

end Registers

/-- the big-endian word at an offset of a byte text -/
def wordAt (bytes : ByteArray) (i : Nat) : UInt32 :=
  let byte := fun j => (bytes.data.getD (i + j) 0).toUInt32
  (byte 0 <<< 24) ||| (byte 1 <<< 16) ||| (byte 2 <<< 8) ||| byte 3

/-- the schedule with `n` words more than its first sixteen -/
def schedule (bytes : ByteArray) (offset : Nat) : Nat → Array UInt32
  | 0 => (Array.range 16).map fun i => wordAt bytes (offset + 4 * i)
  | n + 1 =>
    let w := schedule bytes offset n
    let old := w.getD (n + 1) 0
    let recent := w.getD (n + 14) 0
    w.push (w.getD n 0 + (rotateRight old 7 ^^^ rotateRight old 18 ^^^ (old >>> 3)) +
      w.getD (n + 9) 0 + (rotateRight recent 17 ^^^ rotateRight recent 19 ^^^ (recent >>> 10)))

def compress (bytes : ByteArray) (r : Registers) (offset : Nat) : Registers :=
  r.add ((roundConstants.zip (schedule bytes offset 48).toList).foldl
    (fun s kw => s.round kw.1 kw.2) r)

/-- the zero bytes between the closing bit and the length -/
def paddingZeros (size : Nat) : Nat := (119 - size % 64) % 64

def lengthBytes (size : Nat) : List UInt8 :=
  (List.range 8).map fun i => ((size * 8) >>> (56 - 8 * i)).toUInt8

def pad (bytes : ByteArray) : ByteArray :=
  bytes ++ ((0x80 : UInt8) :: List.replicate (paddingZeros bytes.size) 0 ++
    lengthBytes bytes.size).toByteArray

def digest (bytes : ByteArray) : Vector UInt32 8 :=
  let padded := pad bytes
  ((List.range (padded.size / 64)).foldl (fun r i => compress padded r (64 * i))
    Registers.start).toVector

end PageFuzz.Random.Sha256
