/-!
# Blank characters and words

* `isBlank`   the characters with the Unicode property `White_Space`;
* `words`     the longest blank-free pieces of a text, in order;
* `trim`      a text without its blank ends.
-/

namespace PageFuzz.Text

/-- the Unicode property `White_Space`; look-alikes such as U+200B and U+FEFF do not have it -/
def isBlank (c : Char) : Bool :=
  (0x9 ≤ c.toNat && c.toNat ≤ 0xD) || c.toNat == 0x20 || c.toNat == 0x85 || c.toNat == 0xA0 ||
    c.toNat == 0x1680 || (0x2000 ≤ c.toNat && c.toNat ≤ 0x200A) || c.toNat == 0x2028 ||
    c.toNat == 0x2029 || c.toNat == 0x202F || c.toNat == 0x205F || c.toNat == 0x3000

def words (cs : List Char) : List (List Char) :=
  (cs.splitOnP isBlank).filter (!·.isEmpty)

/-- a word is never empty -/
theorem ne_nil_of_mem_words {w cs : List Char} (h : w ∈ words cs) : w ≠ [] := by
  have := (List.mem_filter.mp h).2
  intro e
  simp [e] at this

def trim (cs : List Char) : List Char :=
  ((cs.dropWhile isBlank).reverse.dropWhile isBlank).reverse

end PageFuzz.Text
