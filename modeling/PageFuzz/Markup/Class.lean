/-!
# Classes of characters in markup

All classes are plain ASCII rules: every other character may stand in text, in the names of
attributes and in values.  The null character stands in none of them.
-/

namespace PageFuzz.Markup

/-- blank, tab, line feed, vertical tab, form feed or carriage return -/
def isSpace (c : Char) : Bool :=
  c == ' ' || c == '\t' || c == '\n' || c == '\x0b' || c == '\x0c' || c == '\r'

/-- part of the name of a tag -/
def isTagNameChar (c : Char) : Bool := c.isAlphanum || c == '-' || c == ':'

/-- part of an unquoted value -/
def isValueChar (c : Char) : Bool :=
  !(isSpace c || c == '<' || c == '>' || c == '"' || c == '\'' || c == '=' || c == '\x00')

/-- part of the name of an attribute -/
def isAttributeNameChar (c : Char) : Bool := isValueChar c && c != '/'

/-- part of a text, between its first and last character -/
def isTextChar (c : Char) : Bool := !(c == '<' || c == '>' || c == '&' || c == '\x00')

/-- what a text may start and end with -/
def isTextEdge (c : Char) : Bool := isTextChar c && !isSpace c

/-- part of a quoted value that ends at the given quote -/
def isQuotedChar (quote : Char) (c : Char) : Bool := c != quote && c != '\x00'

/-- part of what a document type declaration says -/
def isDoctypeChar (c : Char) : Bool := c != '>' && c != '\x00'

def isHexDigit (c : Char) : Bool :=
  c.isDigit || ('a' ≤ c && c ≤ 'f') || ('A' ≤ c && c ≤ 'F')

def lower (cs : List Char) : List Char := cs.map Char.toLower

end PageFuzz.Markup
