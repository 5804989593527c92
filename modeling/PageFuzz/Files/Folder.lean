import PageFuzz.Files.Path

/-!
# Folders

What a directory holds, as one chain of entries: a file with its bytes, a link with its target, or
a directory with a chain of its own.  Every file carries a mark that stays with it for its life, so
that an open file can be told from a later one of the same name, and that two names of one file can
be told from two files.

* `find?`, `put`, `erase`   one entry by name;
* `at?`, `within`           a folder further down, by names;
* `rows`                    everything below, each directory before what it holds, brothers in the
                            order of their names.
-/

namespace PageFuzz

inductive Folder where
  | nil
  | file (name : Name) (mark : Nat) (content : ByteArray) (rest : Folder)
  | link (name : Name) (target : Path) (rest : Folder)
  | dir (name : Name) (inner : Folder) (rest : Folder)

inductive Node where
  | file (mark : Nat) (content : ByteArray)
  | link (target : Path)
  | dir (inner : Folder)

namespace Folder

def cons (name : Name) (node : Node) (rest : Folder) : Folder :=
  match node with
  | .file mark content => file name mark content rest
  | .link target => link name target rest
  | .dir inner => dir name inner rest

def find? (name : Name) : Folder → Option Node
  | nil => none
  | file n mark content rest => if n = name then some (.file mark content) else rest.find? name
  | link n target rest => if n = name then some (.link target) else rest.find? name
  | dir n inner rest => if n = name then some (.dir inner) else rest.find? name

/-- replace the entry of a name, or add it at the end -/
def put (name : Name) (node : Node) : Folder → Folder
  | nil => cons name node nil
  | file n mark content rest =>
    if n = name then cons name node rest else file n mark content (rest.put name node)
  | link n target rest =>
    if n = name then cons name node rest else link n target (rest.put name node)
  | dir n inner rest =>
    if n = name then cons name node rest else dir n inner (rest.put name node)

def erase (name : Name) : Folder → Folder
  | nil => nil
  | file n mark content rest => if n = name then rest else file n mark content (rest.erase name)
  | link n target rest => if n = name then rest else link n target (rest.erase name)
  | dir n inner rest => if n = name then rest else dir n inner (rest.erase name)

theorem find?_cons (name n : Name) (node : Node) (rest : Folder) :
    (cons n node rest).find? name = if n = name then some node else rest.find? name := by
  cases node <;> rfl

theorem find?_put_self (name : Name) (node : Node) (f : Folder) :
    (f.put name node).find? name = some node := by
  induction f with
  | nil => simp [put, find?_cons]
  | file n mark content rest ih => by_cases h : n = name <;> simp [put, h, find?_cons, find?, ih]
  | link n target rest ih => by_cases h : n = name <;> simp [put, h, find?_cons, find?, ih]
  | dir n inner rest _ ih => by_cases h : n = name <;> simp [put, h, find?_cons, find?, ih]

theorem find?_put_of_ne {a b : Name} (h : a ≠ b) (node : Node) (f : Folder) :
    (f.put a node).find? b = f.find? b := by
  induction f with
  | nil => simp [put, find?_cons, find?, h]
  | file n mark content rest ih =>
    by_cases hn : n = a
    · subst hn; simp [put, find?_cons, find?, h]
    · simp [put, hn, find?, ih]
  | link n target rest ih =>
    by_cases hn : n = a
    · subst hn; simp [put, find?_cons, find?, h]
    · simp [put, hn, find?, ih]
  | dir n inner rest _ ih =>
    by_cases hn : n = a
    · subst hn; simp [put, find?_cons, find?, h]
    · simp [put, hn, find?, ih]

theorem find?_erase_of_ne {a b : Name} (h : a ≠ b) (f : Folder) :
    (f.erase a).find? b = f.find? b := by
  induction f with
  | nil => rfl
  | file n mark content rest ih =>
    by_cases hn : n = a
    · subst hn; simp [erase, find?, h]
    · simp [erase, hn, find?, ih]
  | link n target rest ih =>
    by_cases hn : n = a
    · subst hn; simp [erase, find?, h]
    · simp [erase, hn, find?, ih]
  | dir n inner rest _ ih =>
    by_cases hn : n = a
    · subst hn; simp [erase, find?, h]
    · simp [erase, hn, find?, ih]

/-- the folder that is reached by names, one directory below another -/
def at? (f : Folder) : List Name → Option Folder
  | [] => some f
  | n :: ns =>
    match f.find? n with
    | some (.dir inner) => inner.at? ns
    | _ => none

/-- change the folder that is reached by names -/
def within (change : Folder → Folder) (f : Folder) : List Name → Folder
  | [] => change f
  | n :: ns =>
    match f.find? n with
    | some (.dir inner) => f.put n (.dir (inner.within change ns))
    | _ => f

theorem at?_within_self {change : Folder → Folder} {f g : Folder} {ns : List Name}
    (h : f.at? ns = some g) : (f.within change ns).at? ns = some (change g) := by
  induction ns generalizing f with
  | nil =>
    cases h
    rfl
  | cons n ns ih =>
    simp only [at?] at h
    split at h
    · next inner hf =>
      simp only [within, hf, at?, find?_put_self]
      exact ih h
    · cases h

/-- change the bytes of the file with a mark, wherever it is -/
def changeMarked (mark : Nat) (change : ByteArray → ByteArray) : Folder → Folder
  | nil => nil
  | file n m content rest =>
    file n m (if m = mark then change content else content) (rest.changeMarked mark change)
  | link n target rest => link n target (rest.changeMarked mark change)
  | dir n inner rest => dir n (inner.changeMarked mark change) (rest.changeMarked mark change)

/-- groups of rows in order of their names, as one list -/
def inOrder {α : Type} (groups : List (Name × List α)) : List α :=
  (groups.mergeSort fun a b => decide (a.1 ≤ b.1)).flatMap (·.2)

/-- for each entry its name and its rows: itself, and then what is below it -/
def groups : Folder → List (Name × List (List Name × Node))
  | nil => []
  | file n mark content rest => (n, [([n], .file mark content)]) :: rest.groups
  | link n target rest => (n, [([n], .link target)]) :: rest.groups
  | dir n inner rest =>
    (n, ([n], .dir inner) :: (inOrder inner.groups).map fun r => (n :: r.1, r.2)) :: rest.groups

/-- all entries below a folder with the names that lead to them -/
def rows (f : Folder) : List (List Name × Node) := inOrder f.groups

theorem rows_nil : rows nil = [] := by simp [rows, groups, inOrder]

end Folder

end PageFuzz
