/-!
# JSON with line breaks

Values are written with one item or field a line, indented by two spaces for each level; what is
empty is written without a line break.
-/

namespace PageFuzz.Text

inductive JsonValue where
  | number (n : Nat)
  | string (s : String)
  | array (items : List JsonValue)
  | object (fields : List (String × JsonValue))

namespace JsonValue

def hexDigit (n : Nat) : Char := (Nat.digitChar (n % 16))

/-- one character of a string: quotes, backslashes and control characters are escaped -/
def escapeChar (c : Char) : List Char :=
  if c == '"' || c == '\\' then ['\\', c]
  else if c == '\x08' then ['\\', 'b']
  else if c == '\t' then ['\\', 't']
  else if c == '\n' then ['\\', 'n']
  else if c == '\x0c' then ['\\', 'f']
  else if c == '\r' then ['\\', 'r']
  else if c.toNat < 0x20 then ['\\', 'u', '0', '0', hexDigit (c.toNat / 16), hexDigit c.toNat]
  else [c]

def quote (s : String) : String := String.ofList ('"' :: s.toList.flatMap escapeChar ++ ['"'])

/-- the start of a line -/
def newLine (level : Nat) : String := "\n" ++ "".pushn ' ' (2 * level)

/-- items between two brackets, each on a line of its own -/
def enclose (left right : String) (level : Nat) (items : List String) : String :=
  if items.isEmpty then left ++ right
  else left ++ newLine (level + 1) ++ String.intercalate ("," ++ newLine (level + 1)) items ++
    newLine level ++ right

mutual

/-- a value that stands at a level of indentation -/
def pretty (level : Nat) : JsonValue → String
  | number n => toString n
  | string s => quote s
  | array items => enclose "[" "]" level (prettyItems (level + 1) items)
  | object fields => enclose "\x7b" "\x7d" level (prettyFields (level + 1) fields)

def prettyItems (level : Nat) : List JsonValue → List String
  | [] => []
  | v :: vs => pretty level v :: prettyItems level vs

def prettyFields (level : Nat) : List (String × JsonValue) → List String
  | [] => []
  | (name, v) :: fields => (quote name ++ ": " ++ pretty level v) :: prettyFields level fields

end

end JsonValue

end PageFuzz.Text
