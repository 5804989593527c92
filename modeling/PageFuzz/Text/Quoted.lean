import PageFuzz.Text.Unprintable
import PageFuzz.Text.Extenders

/-!
# Quoted text

`quote` writes a text between double quotes so that every character can be seen: a quote, a
backslash and the usual control characters get a backslash, and what has no glyph of its own
(`unprintable`, `extenders`) is written by its code point as `\u` and braces.
-/

namespace PageFuzz.Text

def inRanges (ranges : List (Nat × Nat)) (n : Nat) : Bool :=
  ranges.any fun r => r.1 ≤ n && n ≤ r.2

/-- shown as it is inside quotes -/
def isVisible (c : Char) : Bool :=
  (0x20 ≤ c.toNat && c.toNat < 0x7F) ||
    !(inRanges unprintable c.toNat || inRanges extenders c.toNat)

def codePoint (c : Char) : List Char :=
  ['\\', 'u', '\x7b'] ++ Nat.toDigits 16 c.toNat ++ ['\x7d']

def quoteChar (c : Char) : List Char :=
  if c == '\x00' then ['\\', '0']
  else if c == '\t' then ['\\', 't']
  else if c == '\r' then ['\\', 'r']
  else if c == '\n' then ['\\', 'n']
  else if c == '"' || c == '\\' then ['\\', c]
  else if isVisible c then [c]
  else codePoint c

def quote (s : String) : String :=
  String.ofList ('"' :: s.toList.flatMap quoteChar ++ ['"'])

end PageFuzz.Text
