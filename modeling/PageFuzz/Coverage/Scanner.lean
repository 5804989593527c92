import PageFuzz.Coverage.Scan
import PageFuzz.Markup.Located

/-!
# Scanning a directory

All pages below a directory are read and their names put together.  A scanner owns a parser for as
long as it is in use.  The parser may keep what it likes from one page to the next, and it may have
no tree for a page; such a page counts and adds no names.
-/

namespace PageFuzz.Coverage

/-- a parser and its present state, and the names that pages are compared with -/
structure Scanner (σ : Type) where
  parse : σ → String → Option Markup.Node × σ
  state : σ
  vocabulary : Vocabulary

namespace Scanner

variable {σ : Type}

/-- the names of a page, by what the parser made of it -/
def namesOf : Option Markup.Node → PageNames
  | none => .empty
  | some root => namesIn root

/-- the names in a page, and the scanner afterwards -/
def extract (s : Scanner σ) (source : String) : PageNames × Scanner σ :=
  (namesOf (s.parse s.state source).1, { s with state := (s.parse s.state source).2 })

/-- read pages one after another; damaged bytes are read as U+FFFD -/
def observePages (t : FileTree) :
    List Path → Scanner σ → Observation → Except ScanError Observation × Scanner σ
  | [], s, o => (.ok o, s)
  | p :: ps, s, o =>
    match t.contents p with
    | .error cause => (.error (.io p cause), s)
    | .ok content =>
      let (page, s) := s.extract (Text.Utf8.lossy content.toList)
      observePages t ps s (o.absorb page)

/-- the scanner after some pages -/
def after (s : Scanner σ) (pages : List String) : Scanner σ :=
  pages.foldl (fun s page => (s.extract page).2) s

/-- a scanner with a parser that tells where the nodes of a page are -/
def locating (parse : σ → String → Option Markup.Located × σ) (state : σ) (v : Vocabulary) :
    Scanner σ where
  parse := fun state page =>
    ((parse state page).1.map (Markup.Located.inPage page), (parse state page).2)
  state := state
  vocabulary := v

theorem observePages_cons {t : FileTree} {p : Path} {pages : List Path} {content : ByteArray}
    (h : t.contents p = .ok content) (s : Scanner σ) (o : Observation) :
    observePages t (p :: pages) s o =
      observePages t pages (s.extract (Text.Utf8.lossy content.toList)).2
        (o.absorb (s.extract (Text.Utf8.lossy content.toList)).1) := by
  rw [observePages, h]

def observe (s : Scanner σ) (t : FileTree) (dir : Path) :
    Except ScanError Observation × Scanner σ :=
  match pagesIn t dir with
  | .error e => (.error e, s)
  | .ok pages => observePages t pages s .empty

def scan (s : Scanner σ) (t : FileTree) (dir : Path) : Except ScanError Report × Scanner σ :=
  let (o, s') := s.observe t dir
  (o.map (Report.compute s.vocabulary), s')

/-! ## with the parser of this library -/

/-- The parser keeps nothing and has a tree for every page. -/
def reading (v : Vocabulary) : Scanner Unit where
  parse := fun _ source => (some (Markup.read source), ())
  state := ()
  vocabulary := v

end Scanner

/-- what one scan observes -/
def observe (t : FileTree) (dir : Path) : Except ScanError Observation :=
  ((Scanner.reading .reference).observe t dir).1

def scan (v : Vocabulary) (t : FileTree) (dir : Path) : Except ScanError Report :=
  ((Scanner.reading v).scan t dir).1

end PageFuzz.Coverage
