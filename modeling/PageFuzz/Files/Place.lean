import PageFuzz.Files.Cause
import PageFuzz.Files.Folder

/-!
# Where a path leads

`walk` reads the names of a path one after another, from a directory that is known by its own
names from the root.  A link is replaced by the names of its target; the number of links on one
walk is bounded, and so every walk ends.  In a directory that is gone nothing is found.
-/

namespace PageFuzz

/-- what a link at the very end of a path stands for -/
inductive Ending where
  /-- for itself -/
  | keep
  /-- for what it leads to -/
  | follow
  /-- for what it leads to, where a file may be made -/
  | create
deriving DecidableEq, Repr

/-- The end of a walk: a directory, or a name in a directory, taken or free.  `asDir` tells that
the path ends with a slash, as only that of a directory should. -/
inductive Place where
  | dir (base : List Name)
  | entry (base : List Name) (name : Name) (asDir : Bool)
deriving DecidableEq, Repr

namespace Place

/-- how many bytes a name may have -/
def longestName : Nat := 255

/-- how many bytes a path may have -/
def longestPath : Nat := 4095

/-- how many links one walk may meet -/
def mostLinks : Nat := 40

/-- whether a link at the end of a path is replaced by its target -/
def replacesLast (ending : Ending) (asDir : Bool) : Bool :=
  match ending with
  | .keep => false
  | .follow => true
  | .create => !asDir

/-- The walk from the directory `base` along names, with room for so many more links. -/
def walk (root : Folder) (ending : Ending) (links : Nat) (base : List Name) (asDir : Bool) :
    List Name → Except IoCause Place
  | [] => .ok (.dir base)
  | n :: ns =>
    if n = [Path.dot] then walk root ending links base asDir ns
    else if n = [Path.dot, Path.dot] then walk root ending links base.dropLast asDir ns
    else if longestName < n.length then .error .nameTooLong
    else
      match (root.at? base).map (Folder.find? n) with
      | none => .error .notFound
      | some none => if ns.isEmpty then .ok (.entry base n asDir) else .error .notFound
      | some (some (.file _ _)) =>
        if ns.isEmpty then .ok (.entry base n asDir) else .error .notDirectory
      | some (some (.dir _)) =>
        if ns.isEmpty then .ok (.entry base n asDir)
        else walk root ending links (base ++ [n]) asDir ns
      | some (some (.link target)) =>
        if ns.isEmpty && !replacesLast ending asDir then .ok (.entry base n asDir)
        else
          match links with
          | 0 => .error .tooManyLinks
          | links + 1 =>
            walk root ending links (if target.isAbsolute then [] else base)
              (asDir || ns.isEmpty && target.endsWithSlash) (target.names ++ ns)
termination_by ns => (links, ns.length)

theorem walk_nil (root : Folder) (ending : Ending) (links : Nat) (base : List Name)
    (asDir : Bool) : walk root ending links base asDir [] = .ok (.dir base) := by
  rw [walk]

end Place

end PageFuzz
