import PageFuzz.Files.Tree

/-!
# Listings of a directory

`files` are the files below a directory in the order of a walk that goes into each directory at
its place among its brothers.  A link to a file counts as one; a link to a directory is not gone
into, unless it is the very directory that is listed.  Every directory of a tree can be listed, and
nothing changes meanwhile, so the walk itself cannot fail.
-/

namespace PageFuzz.FileTree

/-- the paths of all files below a directory; no such directory has none -/
def files (t : FileTree) (dir : Path) : List Path :=
  (((t.folder? dir).getD .nil).rows.map fun r => dir.descend r.1).filter t.isFile

theorem isFile_of_mem_files {t : FileTree} {dir p : Path} (h : p ∈ t.files dir) :
    t.isFile p = true := (List.mem_filter.mp h).2

end PageFuzz.FileTree
