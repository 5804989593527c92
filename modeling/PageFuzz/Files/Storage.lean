import PageFuzz.Files.Tree

/-!
# Storage

What is asked of a place that pages are written to: a file can be written and removed, and either
may fail.  The file tree is one such place.
-/

namespace PageFuzz

structure Storage (σ : Type) where
  write : σ → Path → String → Except IoCause Unit × σ
  remove : σ → Path → Except IoCause Unit × σ

namespace FileTree

/-- the tree after an operation, or the tree as it was -/
def after (t : FileTree) : Except IoCause FileTree → Except IoCause Unit × FileTree
  | .ok t' => (.ok (), t')
  | .error e => (.error e, t)

def storage : Storage FileTree where
  write t p text := t.after (t.writeFile p text.toByteArray)
  remove t p := t.after (t.removeFile p)

end FileTree

end PageFuzz
