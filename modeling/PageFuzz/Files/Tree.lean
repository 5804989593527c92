import PageFuzz.Files.Place

/-!
# The file tree

A root folder, the names of the directory that relative paths start from, and the mark of the next
new file.  A failed operation leaves the tree as it was, except `makeDirs`, which may have made
some of the directories.

There are no permissions and there is room for everything.  Where a write may fail for such a cause,
a `Storage` is taken in place of the tree.

* `look`                          what is at a path, links followed;
* `makeDir`, `makeDirs`           directories;
* `contents`, `writeFile`         whole files, by path; a file with several names has one content;
* `openFile`, `update`            a file that is opened once and later found by its mark, also
                                  after its name is gone.
-/

namespace PageFuzz

structure FileTree where
  root : Folder
  here : List Name
  nextMark : Nat

namespace FileTree

/-- a tree that holds nothing but the directory with these names, one below another -/
def ofHere (here : List Name) : FileTree :=
  ⟨here.foldr (fun n f => .dir n f .nil) .nil, here, 0⟩

/-! ## looking -/

def place (t : FileTree) (ending : Ending) (p : Path) : Except IoCause Place :=
  if p.bytes.contains 0 then .error .zeroByte
  else if p.bytes.isEmpty then .error .notFound
  else if Place.longestPath < p.bytes.length then .error .nameTooLong
  else Place.walk t.root ending Place.mostLinks (if p.isAbsolute then [] else t.here)
    p.endsWithSlash p.names

def folder (t : FileTree) (base : List Name) : Folder := (t.root.at? base).getD .nil

/-- what is at a path, links followed -/
def look (t : FileTree) (p : Path) : Except IoCause Node :=
  match t.place .follow p with
  | .error e => .error e
  | .ok (.dir base) => .ok (.dir (t.folder base))
  | .ok (.entry base name asDir) =>
    match (t.folder base).find? name with
    | none => .error .notFound
    | some (.dir inner) => .ok (.dir inner)
    | some node => if asDir then .error .notDirectory else .ok node

def exists? (t : FileTree) (p : Path) : Bool := (t.look p).isOk

def folder? (t : FileTree) (p : Path) : Option Folder :=
  match t.look p with
  | .ok (.dir inner) => some inner
  | _ => none

def isDir (t : FileTree) (p : Path) : Bool := (t.folder? p).isSome

def isFile (t : FileTree) (p : Path) : Bool :=
  match t.look p with
  | .ok (.file _ _) => true
  | _ => false

def contents (t : FileTree) (p : Path) : Except IoCause ByteArray :=
  match t.look p with
  | .ok (.file _ content) => .ok content
  | .ok (.dir _) => .error .isDirectory
  | .ok (.link _) => .error .tooManyLinks
  | .error e => .error e

def readText (t : FileTree) (p : Path) : Except IoCause String :=
  match t.contents p with
  | .error e => .error e
  | .ok content =>
    match String.fromUTF8? content with
    | some text => .ok text
    | none => .error .notText

/-! ## changing -/

/-- put a node at a name of a directory -/
def put (t : FileTree) (base : List Name) (name : Name) (node : Node) : FileTree :=
  { t with root := t.root.within (Folder.put name node) base }

/-- take a name out of a directory -/
def erase (t : FileTree) (base : List Name) (name : Name) : FileTree :=
  { t with root := t.root.within (Folder.erase name) base }

/-- put a new node at a path where nothing is, not even a link -/
def make (t : FileTree) (p : Path) (node : Node) : Except IoCause FileTree :=
  match t.place .keep p with
  | .error e => .error e
  | .ok (.dir _) => .error .alreadyExists
  | .ok (.entry base name _) =>
    match (t.folder base).find? name with
    | some _ => .error .alreadyExists
    | none => .ok (t.put base name node)

def makeDir (t : FileTree) (p : Path) : Except IoCause FileTree := t.make p (.dir .nil)

def makeLink (t : FileTree) (p target : Path) : Except IoCause FileTree := t.make p (.link target)

/-- make a directory; one that is already there is welcome -/
def ensureDir (t : FileTree) (p : Path) : Except IoCause Unit × FileTree :=
  match t.makeDir p with
  | .ok t' => (.ok (), t')
  | .error e => (if t.isDir p then .ok () else .error e, t)

/-- Make the first of some paths, each the directory of the one before it; where a directory is
missing, the rest of them first. -/
def makeDirsUp (t : FileTree) : List Path → Except IoCause Unit × FileTree
  | [] => (.ok (), t)
  | p :: above =>
    if p.bytes.isEmpty then (.ok (), t)
    else
      match t.makeDir p with
      | .error .notFound =>
        match t.makeDirsUp above with
        | (.error e, t') => (.error e, t')
        | (.ok (), t') => t'.ensureDir p
      | _ => t.ensureDir p

/-- make a directory and the directories above it that are missing -/
def makeDirs (t : FileTree) (p : Path) : Except IoCause Unit × FileTree :=
  t.makeDirsUp (p :: p.ancestors)

/-- Where a file at a path is or may be made, and that file if it is there. -/
def fileSpot (t : FileTree) (p : Path) :
    Except IoCause (List Name × Name × Option (Nat × ByteArray)) :=
  match t.place .create p with
  | .error e => .error e
  | .ok (.dir _) => .error .isDirectory
  | .ok (.entry base name asDir) =>
    if asDir then .error .isDirectory
    else
      match (t.folder base).find? name with
      | none => .ok (base, name, none)
      | some (.file mark content) => .ok (base, name, some (mark, content))
      | some (.dir _) => .error .isDirectory
      | some (.link _) => .error .tooManyLinks

/-- Change the file with a mark.  All its names show the change; if they are gone, nothing does. -/
def update (t : FileTree) (mark : Nat) (change : ByteArray → ByteArray) : FileTree :=
  { t with root := t.root.changeMarked mark change }

/-- Give a file its content.  A file that is there is still the same file, with all its names. -/
def writeFile (t : FileTree) (p : Path) (content : ByteArray) : Except IoCause FileTree :=
  match t.fileSpot p with
  | .error e => .error e
  | .ok (_, _, some (mark, _)) => .ok (t.update mark fun _ => content)
  | .ok (base, name, none) =>
    .ok { t.put base name (.file t.nextMark content) with nextMark := t.nextMark + 1 }

/-- the mark of the file at a path, which is made if it is not there -/
def openFile (t : FileTree) (p : Path) : Except IoCause (Nat × FileTree) :=
  match t.fileSpot p with
  | .error e => .error e
  | .ok (_, _, some (mark, _)) => .ok (mark, t)
  | .ok (base, name, none) =>
    .ok (t.nextMark,
      { t.put base name (.file t.nextMark .empty) with nextMark := t.nextMark + 1 })

/-- remove a file or a link -/
def removeFile (t : FileTree) (p : Path) : Except IoCause FileTree :=
  match t.place .keep p with
  | .error e => .error e
  | .ok (.dir _) => .error .isDirectory
  | .ok (.entry base name asDir) =>
    match (t.folder base).find? name with
    | none => .error .notFound
    | some (.dir _) => .error .isDirectory
    | some _ => if asDir then .error .notDirectory else .ok (t.erase base name)

/-- remove whatever is at a path, a directory with all that it holds -/
def removeAll (t : FileTree) (p : Path) : Except IoCause FileTree :=
  match t.place .keep p with
  | .error e => .error e
  | .ok (.dir _) => .error .isDirectory
  | .ok (.entry base name _) =>
    match (t.folder base).find? name with
    | none => .error .notFound
    | some _ => .ok (t.erase base name)

/-! ## small facts -/

theorem exists_of_isDir {t : FileTree} {p : Path} (h : t.isDir p = true) : t.exists? p = true := by
  simp only [isDir, folder?] at h
  split at h
  · next hl => simp [exists?, hl, Except.isOk, Except.toBool]
  · cases h

theorem makeDirs_empty (t : FileTree) : t.makeDirs ⟨[]⟩ = (.ok (), t) := by
  rfl

end FileTree

end PageFuzz
