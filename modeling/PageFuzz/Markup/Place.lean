/-!
# Places in a text

A place knows how many bytes and line feeds lie before it and which characters lie ahead.  Moving
on only drops characters that lie ahead (`length_advanceWhile_le`), so that all reading ends.
-/

namespace PageFuzz.Markup

structure Place where
  /-- the bytes before the place -/
  offset : Nat
  /-- the line feeds before the place -/
  line : Nat
  /-- the characters ahead -/
  rest : List Char

namespace Place

def ofText (s : String) : Place := ⟨0, 0, s.toList⟩

def isEnd (p : Place) : Bool := p.rest.isEmpty

/-- the place after one more character, which lies ahead before `rest` -/
def after (p : Place) (c : Char) (rest : List Char) : Place :=
  ⟨p.offset + c.utf8Size, if c == '\n' then p.line + 1 else p.line, rest⟩

/-- the place one character further, if there is one -/
def next (p : Place) : Place :=
  match p.rest with
  | [] => p
  | c :: cs => p.after c cs

def advanceWhileFrom (keep : Char → Bool) (offset line : Nat) : List Char → Place
  | [] => ⟨offset, line, []⟩
  | c :: cs =>
    if keep c then
      advanceWhileFrom keep (offset + c.utf8Size) (if c == '\n' then line + 1 else line) cs
    else ⟨offset, line, c :: cs⟩

/-- the first place from here on where a character is not of the kind to pass over -/
def advanceWhile (keep : Char → Bool) (p : Place) : Place :=
  advanceWhileFrom keep p.offset p.line p.rest

/-- the same, but at most a number of characters further -/
def advanceWhileUpTo (keep : Char → Bool) : Nat → Place → Place
  | 0, p => p
  | n + 1, p =>
    match p.rest with
    | [] => p
    | c :: cs => if keep c then advanceWhileUpTo keep n (p.after c cs) else p

/-- the place after a word, if the word lies ahead in any case -/
def afterWord? (p : Place) : List Char → Option Place
  | [] => some p
  | w :: ws =>
    match p.rest with
    | [] => none
    | c :: cs => if c.toLower == w then afterWord? (p.after c cs) ws else none

/-- whether one place lies before another one of the same text -/
def isBefore (p q : Place) : Bool := p.offset < q.offset

def textUpTo (offset stop : Nat) : List Char → List Char
  | [] => []
  | c :: cs => if offset < stop then c :: textUpTo (offset + c.utf8Size) stop cs else []

/-- the text between two places -/
def textTo (p q : Place) : String := String.ofList (textUpTo p.offset q.offset p.rest)

/-- the bytes between two places -/
def bytesTo (p q : Place) : Nat := q.offset - p.offset

/-- the line feeds between two places -/
def linesTo (p q : Place) : Nat := q.line - p.line

theorem rest_advanceWhileFrom (keep : Char → Bool) (offset line : Nat) (cs : List Char) :
    (advanceWhileFrom keep offset line cs).rest = cs.dropWhile keep := by
  induction cs generalizing offset line with
  | nil => rfl
  | cons c cs ih => by_cases h : keep c <;> simp [advanceWhileFrom, List.dropWhile, h, ih]

theorem rest_advanceWhile (keep : Char → Bool) (p : Place) :
    (p.advanceWhile keep).rest = p.rest.dropWhile keep :=
  rest_advanceWhileFrom keep p.offset p.line p.rest

theorem length_advanceWhile_le (keep : Char → Bool) (p : Place) :
    (p.advanceWhile keep).rest.length ≤ p.rest.length := by
  rw [rest_advanceWhile]
  exact (List.dropWhile_sublist keep).length_le

end Place

end PageFuzz.Markup
