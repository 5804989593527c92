import PageFuzz.Markup.Class
import PageFuzz.Markup.OpenTags
import PageFuzz.Markup.Token

/-!
# Tokens that depend on the open tags

The name of a start tag opens a tag and the name of its end tag closes it.  An element ends
without an end tag where a tag follows that it may not hold, where an end tag of an element around
it follows, and, if it is void, at once.  The content of a script or a style is raw text up to its
end tag.  Which of these tokens are looked for depends on which are `valid`.
-/

namespace PageFuzz.Markup

/-- a token with the tags that are open after it -/
structure Reading where
  lexeme : Lexeme
  tags : OpenTags

/-- the first place where raw text can stop, as far as it has been read to `p`; `left` is what is
still to match of the closing `mark`, and `stop` the place from where it began to match.  A
character that does not match is passed over and the matching begins anew after it. -/
def rawStop (mark left : List Char) (stop : Place) (offset line : Nat) : List Char → Place
  | [] => stop
  | c :: cs =>
    if c == '\x00' then stop
    else
      let q : Place := ⟨offset + c.utf8Size, if c == '\n' then line + 1 else line, cs⟩
      if left.head? = some c.toLower then
        if left.tail.isEmpty then stop else rawStop mark left.tail stop q.offset q.line cs
      else rawStop mark mark q q.offset q.line cs

/-- what ends the raw text in the innermost tag -/
def rawMark (tags : OpenTags) : List Char :=
  if tags.top?.any (·.name == "script") then "</script".toList else "</style".toList

def readRaw (tags : OpenTags) (p : Place) : Option Reading :=
  if tags.isEmpty then none
  else
    let mark := rawMark tags
    some ⟨⟨.rawText, p, rawStop mark mark p p.offset p.line p.rest⟩, tags⟩

/-- The place after a comment, from where its opening mark ends.  It is closed by a `>` that
follows two dashes or more, `dashes` of which have been read. -/
def afterComment? (dashes offset line : Nat) : List Char → Option Place
  | [] => none
  | c :: cs =>
    let q : Place := ⟨offset + c.utf8Size, if c == '\n' then line + 1 else line, cs⟩
    if c == '\x00' then none
    else if c == '-' then afterComment? (dashes + 1) q.offset q.line cs
    else if c == '>' && 2 ≤ dashes then some q
    else afterComment? 0 q.offset q.line cs

/-- a comment that starts at `p`; `q` is the place after its `<!` -/
def readComment (tags : OpenTags) (p q : Place) : Option Reading :=
  match q.rest with
  | '-' :: '-' :: _ =>
    let r := q.next.next
    (afterComment? 0 r.offset r.line r.rest).map fun stop => ⟨⟨.comment, p, stop⟩, tags⟩
  | _ => none

/-- the name of a tag that lies ahead, and the place after it -/
def readName (p : Place) : Element × Place :=
  let q := p.advanceWhile isTagNameChar
  (.ofName (p.rest.takeWhile isTagNameChar), q)

/-- whether the innermost element ends where the start tag of an element follows; `isLast` says
that the text ends with its name, which may be empty -/
def endsBefore (tags : OpenTags) (e : Element) (isLast : Bool) : Bool :=
  tags.top?.any fun parent =>
    !parent.mayHold e || (isLast && outerNames.contains parent.name)

/-- whether an end tag that does not fit the innermost tag closes a tag around it -/
def endsInside (tags : OpenTags) (e : Element) : Bool := !tags.closes e && tags.hasLike e

/-- the end of the innermost element at `p`, if it is implied by what stands from `q` on, which is
the place after the `<` of a tag or the end of the text -/
def readImpliedEnd (tags : OpenTags) (p q : Place) : Option Reading :=
  let found : Reading := ⟨⟨.impliedEnd, p, p⟩, tags.tail⟩
  match q.rest with
  | '/' :: _ =>
    let (e, stop) := readName q.next
    if (e.name.isEmpty && !stop.isEnd) || !endsInside tags e then none else some found
  | _ =>
    if tags.top?.any Element.isVoid then some found
    else
      let (e, stop) := readName q
      if (e.name.isEmpty && !stop.isEnd) || !endsBefore tags e stop.isEnd then none else some found

/-- a `/>`, which closes the innermost tag; where no tag is open it passes for a name -/
def readSlash (tags : OpenTags) (p : Place) : Option Reading :=
  match p.rest with
  | '/' :: '>' :: _ =>
    if tags.isEmpty then some ⟨⟨.startName, p, p.next.next⟩, tags⟩
    else some ⟨⟨.selfClose, p, p.next.next⟩, tags.tail⟩
  | _ => none

def nameToken (e : Element) : Token :=
  match e.name with
  | "script" => .scriptName
  | "style" => .styleName
  | _ => .startName

def readStartName (tags : OpenTags) (p : Place) : Option Reading :=
  let (e, stop) := readName p
  if e.name.isEmpty then none else some ⟨⟨nameToken e, p, stop⟩, tags.push e⟩

def readEndName (tags : OpenTags) (p : Place) : Option Reading :=
  let (e, stop) := readName p
  if e.name.isEmpty then none
  else if tags.closes e then some ⟨⟨.endName, p, stop⟩, tags.tail⟩
  else some ⟨⟨.strayName, p, stop⟩, tags⟩

/-- the token that lies ahead after all blanks -/
def readContextualHere (valid : Token → Bool) (tags : OpenTags) (p : Place) : Option Reading :=
  match p.rest with
  | [] | '\x00' :: _ => if valid .impliedEnd then readImpliedEnd tags p p else none
  | '<' :: '!' :: _ => readComment tags p p.next.next
  | '<' :: _ => if valid .impliedEnd then readImpliedEnd tags p p.next else none
  | '/' :: _ => if valid .selfClose then readSlash tags p else none
  | _ =>
    if valid .rawText then none
    else if valid .startName then readStartName tags p
    else if valid .endName then readEndName tags p
    else none

/-- the token that lies ahead, if it is one of those that are looked for -/
def readContextual (valid : Token → Bool) (tags : OpenTags) (p : Place) : Option Reading :=
  if valid .rawText && !valid .startName && !valid .endName then readRaw tags p
  else readContextualHere valid tags (p.advanceWhile isSpace)

end PageFuzz.Markup
