import PageFuzz.Markup.Class
import PageFuzz.Markup.Token

/-!
# Tokens told by their characters

Which tokens are looked for depends on the mode: between the nodes of a page there is text, in a
tag there are names of attributes.  Blanks before a token are passed over, unless they are part of
it.
-/

namespace PageFuzz.Markup

inductive Mode where
  /-- punctuation only, and the end of the text -/
  | general
  /-- between the nodes of a page -/
  | nodes
  /-- between the attributes of a tag -/
  | tag
  /-- after an equals sign -/
  | value
  /-- after an opening quote -/
  | quoted (q : Quote)
  /-- after the word `doctype` -/
  | doctype
deriving DecidableEq, Repr

def doctypeChars : List Char := "doctype".toList

/-- a token of the characters from here on of one class, of which there must be one -/
def readSpan (token : Token) (keep : Char → Bool) (p : Place) : Option Lexeme :=
  let q := p.advanceWhile keep
  if p.isBefore q then some ⟨token, p, q⟩ else none

/-- a token that starts with a `<`; `q` is the place after it -/
def readAngle (p q : Place) : Lexeme :=
  match q.rest with
  | '!' :: _ => ⟨.bang, p, q.next⟩
  | '/' :: _ => ⟨.slash, p, q.next⟩
  | _ => ⟨.angle, p, q⟩

/-- a `/>`; `q` is the place after the slash -/
def readSelfClose (p q : Place) : Option Lexeme :=
  match q.rest with
  | '>' :: _ => some ⟨.selfClose, p, q.next⟩
  | _ => none

/-- the place after a number in a reference to a character; `p` is the place after the `#` -/
def afterNumber? (p : Place) : Option Place :=
  let digits (keep : Char → Bool) (n : Nat) (p : Place) : Option Place :=
    let q := p.advanceWhileUpTo keep n
    if p.isBefore q then some q else none
  match p.rest with
  | 'x' :: _ | 'X' :: _ => digits isHexDigit 6 p.next
  | _ => digits Char.isDigit 5 p

/-- the place after what an entity is called; `p` is the place after the `&` -/
def afterReference? (p : Place) : Option Place :=
  match p.rest with
  | '#' :: _ => afterNumber? p.next
  | _ =>
    let q := p.advanceWhileUpTo Char.isAlpha 30
    if p.isBefore q then some q else none

/-- an entity; `q` is the place after the `&` -/
def readEntity (p q : Place) : Option Lexeme :=
  (afterReference? q).map fun r =>
    match r.rest with
    | ';' :: _ => ⟨.entity, p, r.next⟩
    | _ => ⟨.entity, p, r⟩

/-- the last place up to which a text goes that may stop at `stop` or further on -/
def textStop (stop : Place) (offset line : Nat) : List Char → Place
  | [] => stop
  | c :: cs =>
    if isTextChar c then
      let q : Place := ⟨offset + c.utf8Size, if c == '\n' then line + 1 else line, cs⟩
      textStop (if isTextEdge c then q else stop) q.offset q.line cs
    else stop

/-- a text; `q` is the place after its first character -/
def readText (p q : Place) : Lexeme := ⟨.text, p, textStop q q.offset q.line q.rest⟩

/-- a token at a place where no blank stands, in a mode where blanks are passed over -/
def readHere (mode : Mode) (p : Place) : Option Lexeme :=
  match p.rest with
  | [] => if mode == .general || mode == .nodes then some ⟨.endOfText, p, p⟩ else none
  | c :: cs =>
    let q := p.after c cs
    match mode with
    | .general =>
      match c with
      | '<' => some (readAngle p q)
      | '>' => some ⟨.close, p, q⟩
      | '/' => readSelfClose p q
      | '=' => some ⟨.equals, p, q⟩
      | '\'' => some ⟨.quote .single, p, q⟩
      | '"' => some ⟨.quote .double, p, q⟩
      | '&' => readEntity p q
      | _ => (p.afterWord? doctypeChars).map (⟨.doctypeWord, p, ·⟩)
    | .nodes =>
      match c with
      | '<' => some (readAngle p q)
      | '&' => readEntity p q
      | _ => if isTextEdge c then some (readText p q) else none
    | .tag =>
      match c with
      | '>' => some ⟨.close, p, q⟩
      | '/' => readSelfClose p q
      | '=' => some ⟨.equals, p, q⟩
      | _ => readSpan .attributeName isAttributeNameChar p
    | .value =>
      match c with
      | '\'' => some ⟨.quote .single, p, q⟩
      | '"' => some ⟨.quote .double, p, q⟩
      | _ => readSpan .attributeValue isValueChar p
    | .quoted _ | .doctype => none

/-- the token that lies ahead, if the mode has one -/
def readPlain (mode : Mode) (p : Place) : Option Lexeme :=
  match mode with
  | .quoted q =>
    if p.rest.head? = some q.char then some ⟨.quote q, p, p.next⟩
    else readSpan (.quoted q) (isQuotedChar q.char) p
  | .doctype => readSpan .doctypeBody isDoctypeChar p
  | _ => readHere mode (p.advanceWhile isSpace)

end PageFuzz.Markup
