import PageFuzz.Markup.Place

/-!
# Tokens

What markup is made of.  Most tokens are told by their characters alone; the others depend on
which tags are open.
-/

namespace PageFuzz.Markup

inductive Quote where
  | single
  | double
deriving DecidableEq, Repr

def Quote.char : Quote → Char
  | single => '\''
  | double => '"'

inductive Token where
  /-- the end of the text -/
  | endOfText
  /-- `<!` -/
  | bang
  /-- what a document type declaration says -/
  | doctypeBody
  /-- `>` -/
  | close
  /-- the word `doctype` -/
  | doctypeWord
  /-- `<` -/
  | angle
  /-- `/>` -/
  | selfClose
  /-- `</` -/
  | slash
  | equals
  | attributeName
  | attributeValue
  | entity
  | quote (q : Quote)
  /-- what stands between quotes -/
  | quoted (q : Quote)
  | text
  /-- the name in a start tag -/
  | startName
  | scriptName
  | styleName
  /-- the name in the end tag of the innermost open tag -/
  | endName
  /-- the name in an end tag that closes nothing -/
  | strayName
  /-- the end of an element that is not written -/
  | impliedEnd
  | rawText
  | comment
deriving DecidableEq, Repr

namespace Token

/-- the tokens that can be missing in a text, in the order in which they are tried -/
def all : List Token := [
  bang, doctypeBody, close, doctypeWord, angle, selfClose, slash, equals, attributeName,
  attributeValue, entity, quote .single, quoted .single, quote .double, quoted .double, text,
  startName, scriptName, styleName, endName, strayName, impliedEnd, rawText, comment]

/-- whether a token is seen in a tree -/
def isVisible : Token → Bool
  | endOfText | doctypeBody | impliedEnd => false
  | _ => true

end Token

/-- a token in a text, from where it starts to where it stops -/
structure Lexeme where
  token : Token
  start : Place
  stop : Place

end PageFuzz.Markup
