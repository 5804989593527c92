import PageFuzz.Derivation.Expander
import PageFuzz.Files.Storage
import PageFuzz.Session.Error

/-!
# A corpus of pages

`Corpus.generate` writes a given number of numbered pages into a directory, all derived with one
chooser after another.  A page that meets a limit is derived anew, up to `attempts` times in all.
-/

namespace PageFuzz.Corpus

def pageFileName (n : Nat) : String := "page" ++ toString n ++ ".html"

def pagePath (dir : Path) (n : Nat) : Path := dir.join (.ofString (pageFileName n))

/-- how often a page is derived until its error is reported -/
def attempts : Nat := 16

section

variable {σ τ : Type}

/-- Derive a page, and again after a limit as long as there are `more` attempts. -/
def drawWithin (e : Expander) (c : Chooser σ) (start : String) :
    Nat → σ → Except ExpansionError String × σ
  | 0, s => e.generate c start s
  | more + 1, s =>
    match e.generate c start s with
    | (.error err, s) => if err.isLimit then drawWithin e c start more s else (.error err, s)
    | (.ok page, s) => (.ok page, s)

def drawPage (e : Expander) (c : Chooser σ) (start : String) (s : σ) :
    Except ExpansionError String × σ :=
  drawWithin e c start (attempts - 1) s

/-- write the pages from number `n` on -/
def writePages (store : Storage τ) (dir : Path) (e : Expander) (c : Chooser σ) (start : String) :
    Nat → Nat → List Path → σ → τ → Except SessionError (List Path) × σ × τ
  | 0, _, written, s, files => (.ok written.reverse, s, files)
  | count + 1, n, written, s, files =>
    match drawPage e c start s with
    | (.error cause, s) => (.error (.expansion cause), s, files)
    | (.ok page, s) =>
      let path := pagePath dir n
      match store.write files path page with
      | (.error cause, files) => (.error (.io path cause), s, files)
      | (.ok (), files) => writePages store dir e c start count (n + 1) (path :: written) s files

end

/-- Write a corpus into a directory that is there; the answer is the paths of its pages.  The pages
are written as `store` writes, which may fail for any cause. -/
def generate {σ : Type} (dir : Path) (count : Nat) (e : Expander) (start : String) (c : Chooser σ)
    (s : σ) (t : FileTree) (store : Storage FileTree := FileTree.storage) :
    Except SessionError (List Path) × σ × FileTree :=
  if t.isDir dir then writePages store dir e c start count 1 [] s t
  else (.error (.configuration (.missingDirectory dir)), s, t)

end PageFuzz.Corpus
