import PageFuzz.Markup.Token.Contextual
import PageFuzz.Markup.Tree

/-!
# The token ahead

What is read next at a place depends on the state: the tokens that it expects come first.  If none
of them stands there, any token will do that can be told well enough, and before such a token
characters are passed over that no token starts with.
-/

namespace PageFuzz.Markup

structure Lookahead where
  /-- none for characters that cannot be read -/
  token : Option Token
  /-- where the blanks before it start -/
  before : Place
  start : Place
  stop : Place
  /-- the open tags after it, if it depends on them -/
  tags : Option OpenTags
  /-- whether it has opened or closed a tag -/
  changesTags : Bool

namespace Lookahead

def symbol (l : Lookahead) : Symbol := l.token.elim .error .token

def isEnd (l : Lookahead) : Bool := l.token == some .endOfText

def tree (l : Lookahead) : Tree := .leaf l.symbol l.before l.start l.stop l.tags

/-- what a reading of a token changes; before the first one there is no record of tags at all -/
def ofReading (before : Place) (tags : Option OpenTags) (r : Reading) : Lookahead :=
  ⟨some r.lexeme.token, before, r.lexeme.start, r.lexeme.stop, some r.tags,
    tags.all (·.depth != r.tags.depth)⟩

def ofLexeme (before : Place) (l : Lexeme) : Lookahead :=
  ⟨some l.token, before, l.start, l.stop, none, false⟩

/-- a mark of the byte order, which may stand at the start of a text and says nothing -/
def byteOrderMark : Char := '\ufeff'

/-- the place from which a token is read -/
def afterMark (p : Place) : Place :=
  if p.offset == 0 && p.rest.head? == some byteOrderMark then p.next else p

/-- the token at a place, if it is one that a state looks for -/
def readIn? (s : State) (tags : Option OpenTags) (p : Place) : Option Lookahead :=
  let start := afterMark p
  match readContextual s.expects (tags.getD []) start with
  | some r => some (ofReading p tags r)
  | none => (readPlain s.mode start).map (ofLexeme p)

/-- the first place from `p` on, or from after the character that follows blanks there, and so on,
where any token can be read -/
def unreadableStop (tags : Option OpenTags) (p : Place) : Place :=
  if (readIn? .error tags p).isSome then p
  else
    let q := (afterMark p).advanceWhile isSpace
    match _h : q.rest with
    | [] => p
    | c :: cs => unreadableStop tags (q.after c cs)
termination_by p.rest.length
decreasing_by
  have h₁ := Place.length_advanceWhile_le isSpace (afterMark p)
  have h₂ : (afterMark p).rest.length ≤ p.rest.length := by
    unfold afterMark Place.next
    split
    · split
      · exact Nat.le_refl _
      · next hr => simp [hr, Place.after]
    · exact Nat.le_refl _
  have h₃ : (q.after c cs).rest.length < q.rest.length := by simp [_h, Place.after]
  exact Nat.lt_of_lt_of_le h₃ (Nat.le_trans h₁ h₂)

/-- what stands ahead where no token can be read -/
def unreadable (tags : Option OpenTags) (p : Place) : Lookahead :=
  ⟨none, p, (afterMark p).advanceWhile isSpace, unreadableStop tags p, none, false⟩

/-- what stands ahead at a place -/
def read (s : State) (tags : Option OpenTags) (p : Place) : Lookahead :=
  match readIn? s tags p with
  | some l => l
  | none => (readIn? .error tags p).getD (unreadable tags p)

end Lookahead

end PageFuzz.Markup
