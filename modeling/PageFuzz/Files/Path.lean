import PageFuzz.Text.Utf8

/-!
# Paths

A path is the bytes that it is written with.  Slashes cut it into names; a name `.` stays where it
is and a name `..` goes up.  `child` puts a name below a path, `extension?` reads the ending of the
last name, and `ancestors` are the paths of the directories above.
-/

namespace PageFuzz

/-- the bytes of one file name -/
abbrev Name := List UInt8

structure Path where
  bytes : List UInt8
deriving DecidableEq, Repr

namespace Path

def slash : UInt8 := 47
def dot : UInt8 := 46

def ofString (s : String) : Path := ⟨s.toByteArray.toList⟩

/-- the path as a text; bytes that are no text are shown as U+FFFD -/
def display (p : Path) : String := Text.Utf8.lossy p.bytes

def isAbsolute (p : Path) : Bool := p.bytes.head? == some slash

def endsWithSlash (p : Path) : Bool := p.bytes.getLast? == some slash

/-- the path of `q` as seen from `p` -/
def join (p q : Path) : Path :=
  if q.isAbsolute then q
  else if p.bytes.isEmpty || p.endsWithSlash then ⟨p.bytes ++ q.bytes⟩
  else ⟨p.bytes ++ slash :: q.bytes⟩

def child (p : Path) (n : Name) : Path := p.join ⟨n⟩

/-- the path that is reached from `p` by names, one below another -/
def descend (p : Path) (ns : List Name) : Path := ns.foldl child p

theorem descend_append (p : Path) (a b : List Name) :
    p.descend (a ++ b) = (p.descend a).descend b := by
  simp [descend]

/-- the names between the slashes, without empty ones -/
def names (p : Path) : List Name := (p.bytes.splitOnP (· == slash)).filter (!·.isEmpty)

/-- The names that matter: a `.` counts only at the very start of a relative path. -/
def parts (p : Path) : List Name :=
  match p.names with
  | [] => []
  | n :: ns =>
    let ns := ns.filter (· != [dot])
    if n == [dot] && p.isAbsolute then ns else n :: ns

/-- a path written from its names -/
def ofParts (isAbsolute : Bool) (ns : List Name) : Path :=
  let text := [slash].intercalate ns
  ⟨if isAbsolute then slash :: text else text⟩

/-- The directories above, the nearest first; the last is the empty path or the root. -/
def ancestors (p : Path) : List Path :=
  let ns := p.parts
  (List.range ns.length).map fun i => ofParts p.isAbsolute (ns.take (ns.length - 1 - i))

/-- the last name, unless it is `.` or `..` -/
def fileName? (p : Path) : Option Name :=
  (p.parts.getLast?).filter fun n => n != [dot] && n != [dot, dot]

/-- What follows the last dot of the last name, if something stands before that dot. -/
def extension? (p : Path) : Option Name := do
  let n ← p.fileName?
  let after := (n.reverse.takeWhile (· != dot)).reverse
  if n.length ≤ after.length + 1 then none else some after

end Path

end PageFuzz
