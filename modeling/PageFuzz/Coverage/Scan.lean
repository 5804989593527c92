import PageFuzz.Coverage.Report
import PageFuzz.Files.Listing

/-!
# The pages of a directory

All pages below a directory are scanned.  A page is a file whose name ends in `.html` or `.htm`, in
lower case.
-/

namespace PageFuzz.Coverage

inductive ScanError where
  | missingDirectory (path : Path)
  | io (path : Path) (cause : IoCause)
deriving DecidableEq, Repr

namespace ScanError

def message : ScanError → String
  | missingDirectory path => "directory " ++ path.display ++ " does not exist"
  | io path cause => "I/O error on " ++ path.display ++ ": " ++ cause.message

/-- the messages from this error down to its first cause -/
def causes : ScanError → List String
  | io path cause => [message (io path cause), cause.message]
  | e => [e.message]

end ScanError

/-- the endings of the names of pages -/
def pageExtensions : List Name := [(Path.ofString "html").bytes, (Path.ofString "htm").bytes]

def isPage (p : Path) : Bool :=
  match p.extension? with
  | some extension => pageExtensions.contains extension
  | none => false

/-- the pages below a directory -/
def pagesIn (t : FileTree) (dir : Path) : Except ScanError (List Path) :=
  if t.isDir dir then .ok ((t.files dir).filter isPage) else .error (.missingDirectory dir)

end PageFuzz.Coverage
