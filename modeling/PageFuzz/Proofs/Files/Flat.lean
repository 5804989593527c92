import Mathlib.Data.List.Basic
import PageFuzz.Proofs.Files.NewFile
import PageFuzz.Proofs.Files.Separation

/-!
# Directories that hold only files

A directory without directories and links of its own lists the names of its files in their order,
and each of them is found by its name.  Nothing that happens to files elsewhere is seen in it, as a
file is changed by its mark and every file has a mark of its own.

* `Sound`              a tree whose files have marks that were given, and in which one stands;
* `Sound.writeFile`    it stays one when a file is written;
* `Folder.marks`       the marks in a folder; a change by another mark does nothing to it;
* `Shows`              the path leads to a directory, wherever that is and by whatever links;
* `Shows.files_eq`     what it lists, if it holds only files;
* `Shows.writeFile`    a new file in it;
* `Shows.openFile`     a file that is opened elsewhere;
* `Shows.update`       a change by the mark of a file elsewhere.
-/

namespace PageFuzz

/-! ## marks -/

/-- the marks of all files in a folder and below it -/
def Folder.marks : Folder → List Nat
  | nil => []
  | file _ mark _ rest => mark :: rest.marks
  | link _ _ rest => rest.marks
  | dir _ inner rest => inner.marks ++ rest.marks

/-- the same of a node -/
def Node.marks : Node → List Nat
  | .file mark _ => [mark]
  | .link _ => []
  | .dir inner => inner.marks

namespace Folder

section
variable {f : Folder} {x : Name} {mark : Nat}

theorem marks_cons (x : Name) (node : Node) (f : Folder) :
    (cons x node f).marks = node.marks ++ f.marks := by
  cases node <;> rfl

theorem marks_subset_of_find {node : Node} (h : f.find? x = some node) : node.marks ⊆ f.marks := by
  induction f using consInduction with
  | nil => cases h
  | cons n old rest ih =>
    rw [find?_cons] at h
    rw [marks_cons]
    split at h
    · cases h
      exact List.subset_append_left _ _
    · exact List.Subset.trans (ih h) (List.subset_append_right _ _)

theorem marks_subset_of_at {root : Folder} {ns : List Name} (h : root.at? ns = some f) :
    f.marks ⊆ root.marks := by
  induction ns generalizing root with
  | nil =>
    cases h
    exact List.Subset.refl _
  | cons n ns ih =>
    rw [at?] at h
    split at h
    · next inner hinner => exact List.Subset.trans (ih h) (marks_subset_of_find hinner)
    · cases h

theorem mem_marks_of_node? {root : Folder} {b : List Name} {content : ByteArray}
    (h : root.node? b x = some (.file mark content)) : mark ∈ root.marks := by
  obtain ⟨node, hnode, hshallow⟩ := Option.map_eq_some_iff.mp h
  obtain ⟨g, hg, hfound⟩ := Option.bind_eq_some_iff.mp hnode
  cases node with
  | file m c =>
    cases hshallow
    exact marks_subset_of_at hg (marks_subset_of_find hfound List.mem_cons_self)
  | link target => cases hshallow
  | dir inner => cases hshallow

theorem marks_put (x : Name) (node : Node) (f : Folder) :
    (f.put x node).marks ⊆ node.marks ++ f.marks := by
  intro mark hmark
  rw [List.mem_append]
  induction f using consInduction with
  | nil =>
    have hnew : (put x node nil).marks = node.marks ++ nil.marks := marks_cons x node nil
    rw [hnew] at hmark
    exact List.mem_append.mp hmark
  | cons n old rest ih =>
    rw [put_cons] at hmark
    rw [marks_cons, List.mem_append]
    split at hmark
    · rw [marks_cons, List.mem_append] at hmark
      exact hmark.imp_right .inr
    · rw [marks_cons, List.mem_append] at hmark
      rcases hmark with hmark | hmark
      · exact .inr (.inl hmark)
      · exact (ih hmark).imp_right .inr

theorem marks_within_put (x : Name) (node : Node) (root : Folder) (base : List Name) :
    (root.within (put x node) base).marks ⊆ node.marks ++ root.marks := by
  induction base generalizing root with
  | nil => exact marks_put x node root
  | cons n ns ih =>
    rw [within]
    split
    · next inner hinner =>
      intro mark hmark
      rw [List.mem_append]
      rcases List.mem_append.mp (marks_put n _ root hmark) with hmark | hmark
      · exact (List.mem_append.mp (ih inner hmark)).imp_right fun h => marks_subset_of_find hinner h
      · exact .inr hmark
    · exact List.subset_append_right _ _

/-- A change by a mark that is not there does nothing. -/
theorem changeMarked_of_not_mem (change : ByteArray → ByteArray) (h : mark ∉ f.marks) :
    f.changeMarked mark change = f := by
  induction f with
  | nil => rfl
  | file n m content rest ih =>
    rw [marks, List.mem_cons, not_or] at h
    rw [changeMarked, if_neg (Ne.symm h.1), ih h.2]
  | link n target rest ih => rw [changeMarked, ih h]
  | dir n inner rest ihi ih =>
    rw [marks, List.mem_append, not_or] at h
    rw [changeMarked, ihi h.1, ih h.2]

/-- A change of contents changes no marks. -/
theorem marks_changeMarked (mark : Nat) (change : ByteArray → ByteArray) (f : Folder) :
    (f.changeMarked mark change).marks = f.marks := by
  induction f with
  | nil => rfl
  | file n m content rest ih => rw [changeMarked, marks, marks, ih]
  | link n target rest ih => rw [changeMarked, marks, marks, ih]
  | dir n inner rest ihi ih => rw [changeMarked, marks, marks, ihi, ih]

/-! ## rows -/

/-- The rows of a folder of files are its names in order. -/
theorem rows_of_onlyFiles (h : f.onlyFiles = true) :
    f.rows.map (·.1) = (f.names.mergeSort fun a b => decide (a ≤ b)).map fun n => [n] := by
  have hgroups : f.groups.map (chosen fun _ => true) = f.names.map fun n => (n, [[n]]) := by
    induction f with
    | nil => rfl
    | file n mark content rest ih => exact congrArg (_ :: ·) (ih h)
    | link n target rest ih => cases h
    | dir n inner rest _ ih => cases h
  have hsort := List.map_mergeSort (r := fun a b : Name => decide (a ≤ b))
    (s := fun a b : Name × List (List Name) => decide (a.1 ≤ b.1)) (f := fun n => (n, [[n]]))
    (l := f.names) fun _ _ _ _ => rfl
  have hall : (f.rows.map (·.1)).filter (fun _ => true) = f.rows.map (·.1) :=
    List.filter_eq_self.mpr fun _ _ => rfl
  rw [← hall, rows_filter, hgroups, inOrder, ← hsort, List.flatMap_map]
  exact List.map_eq_flatMap.symm

end

end Folder

namespace FileTree

/-! ## trees -/

/-- The directory that relative paths start from is there, and the marks of all files have been
given. -/
structure Sound (t : FileTree) : Prop where
  here : ∃ f, t.root.at? t.here = some f
  marks : ∀ mark ∈ t.root.marks, mark < t.nextMark

theorem sound_ofHere (here : List Name) : (ofHere here).Sound := by
  have hroot : ∀ ns : List Name, ∃ f,
      (ns.foldr (fun n f => Folder.dir n f .nil) .nil).at? ns = some f := by
    intro ns
    induction ns with
    | nil => exact ⟨.nil, rfl⟩
    | cons n ns ih =>
      obtain ⟨f, hf⟩ := ih
      refine ⟨f, ?_⟩
      rw [List.foldr_cons, Folder.at?, Folder.find?, if_pos rfl]
      exact hf
  have hmarks : ∀ ns : List Name,
      (ns.foldr (fun n f => Folder.dir n f .nil) .nil).marks = [] := by
    intro ns
    induction ns with
    | nil => rfl
    | cons n ns ih =>
      rw [List.foldr_cons, Folder.marks, ih]
      rfl
  refine ⟨hroot here, fun mark hmark => ?_⟩
  have hnone : mark ∈ (ofHere here).root.marks := hmark
  rw [ofHere, hmarks] at hnone
  cases hnone

/-- A file that is given its content keeps its mark or has the next one. -/
theorem marks_writeFile {t t' : FileTree} {p : Path} {content : ByteArray}
    (hmarks : ∀ mark ∈ t.root.marks, mark < t.nextMark) (hw : t.writeFile p content = .ok t') :
    ∀ mark ∈ t'.root.marks, mark < t'.nextMark := by
  rcases writeFile_eq_ok hw with ⟨_, _, mark, _, -, rfl⟩ | ⟨base, x, g, -, -, -, rfl⟩
  · intro m hm
    rw [FileTree.update, Folder.marks_changeMarked] at hm
    exact hmarks m hm
  · intro m hm
    rcases List.mem_append.mp (Folder.marks_within_put x _ t.root base hm) with hnew | hold
    · obtain rfl := List.mem_singleton.mp hnew
      exact Nat.lt_succ_self _
    · exact Nat.lt_succ_of_lt (hmarks m hold)

theorem Sound.writeFile {t t' : FileTree} {p : Path} {content : ByteArray} (h : t.Sound)
    (hw : t.writeFile p content = .ok t') : t'.Sound := by
  refine ⟨?_, marks_writeFile h.marks hw⟩
  obtain ⟨f, hf⟩ := h.here
  rcases writeFile_eq_ok hw with ⟨_, _, mark, _, -, rfl⟩ | ⟨base, x, g, -, hg, hfree, rfl⟩
  · exact (Folder.passable_changeMarked mark _ t.root).at? hf
  · exact (passable_put_file hg (fun _ hnode => Folder.kind_of_free hfree hnode) _).at? hf

/-- The path leads to a directory, at `d` in the tree, that holds `f`. -/
structure Shows (t : FileTree) (p : Path) (d : List Name) (f : Folder) : Prop where
  reaches : t.Reaches p d
  bytes_ne_nil : p.bytes ≠ []
  short : p.bytes.length ≤ Place.longestPath
  at_eq : t.root.at? d = some f

/-- A trail from a directory leads to a directory. -/
theorem at?_of_trail {root : Folder} {links links' : Nat} {base base' ns : List Name}
    (h : Place.Trail root links' base' links base ns) (hbase : ∃ f, root.at? base = some f) :
    ∃ f, root.at? base' = some f := by
  induction h with
  | done => exact hbase
  | dot _ ih => exact ih hbase
  | @up _ base _ _ ih =>
    refine ih ?_
    obtain ⟨f, hf⟩ := hbase
    rcases List.eq_nil_or_concat base with rfl | ⟨front, last, rfl⟩
    · exact ⟨f, hf⟩
    · rw [List.concat_eq_append, Folder.at?_append] at hf
      obtain ⟨above, habove, -⟩ := Option.bind_eq_some_iff.mp hf
      rw [List.concat_eq_append, List.dropLast_concat]
      exact ⟨above, habove⟩
  | into _ hk _ ih => exact ih (Folder.at?_of_kinds hk)
  | link _ _ _ ih =>
    refine ih ?_
    split
    · exact ⟨root, rfl⟩
    · exact hbase

/-- A directory that is there is shown. -/
theorem shows_of_folder? {t : FileTree} {p : Path} {f : Folder}
    (hhere : ∃ g, t.root.at? t.here = some g) (h : t.folder? p = some f) :
    ∃ d, t.Shows p d f := by
  have hdir : t.isDir p = true := by rw [isDir, h]; rfl
  obtain ⟨d, hreach⟩ := reaches_of_isDir hdir
  obtain ⟨hne, -, hshort⟩ := short_of_isDir hdir
  obtain ⟨links, htrail⟩ := hreach.trail
  have hstart : ∃ g, t.root.at? (if p.isAbsolute then [] else t.here) = some g := by
    split
    · exact ⟨t.root, rfl⟩
    · exact hhere
  obtain ⟨g, hg⟩ := at?_of_trail htrail hstart
  have hfolder := hreach.folder?_eq hdir
  rw [h, folder, hg, Option.getD_some, Option.some.injEq] at hfolder
  exact ⟨d, hreach, hne, hshort, hfolder ▸ hg⟩

namespace Shows

variable {t t' : FileTree} {p : Path} {d : List Name} {f f' : Folder} {x : Name}

theorem isDir (h : t.Shows p d f) : t.isDir p = true := h.reaches.isDir h.bytes_ne_nil h.short

theorem folder?_eq (h : t.Shows p d f) : t.folder? p = some f := by
  rw [h.reaches.folder?_eq h.isDir, folder, h.at_eq]
  rfl

theorem mono (h : t.Shows p d f) (hpass : t.root.Passable t'.root) (hhere : t'.here = t.here)
    (hat : t'.root.at? d = some f') : t'.Shows p d f' :=
  ⟨h.reaches.mono hpass hhere, h.bytes_ne_nil, h.short, hat⟩

/-! ## what it shows -/

/-- A walk to a name in the directory, where a file is or may be made, ends there. -/
theorem place_join (h : t.Shows p d f) (hx : Path.IsFileName x)
    (hfile : ∀ node, f.find? x = some node → node.kind = .file) (ending : Ending) :
    t.place ending (p.join ⟨x⟩) =
      if p.TooLong x then .error .nameTooLong else .ok (.entry d x false) := by
  obtain ⟨links, hwalk⟩ := h.reaches.place_join hx
  rw [hwalk ending]
  by_cases hlong : p.TooLong x
  · rw [if_pos hlong, if_pos hlong]
  · have hplain : Place.IsPlain x :=
      ⟨hx.ne_dot, hx.ne_up, Nat.not_lt.mp fun hlt => hlong (.inr hlt)⟩
    rw [if_neg hlong, if_neg hlong, Place.walk_plain hplain, Folder.kinds, h.at_eq,
      Option.map_some]
    cases hf : f.find? x with
    | none => rfl
    | some node =>
      rw [Option.map_some, hfile node hf]
      rfl

theorem look_join (h : t.Shows p d f) (hx : Path.IsFileName x) (hfits : ¬ p.TooLong x) {mark : Nat}
    {content : ByteArray} (hf : f.find? x = some (.file mark content)) :
    t.look (p.join ⟨x⟩) = .ok (.file mark content) := by
  have hfile : ∀ node, f.find? x = some node → node.kind = .file := by
    intro node hnode
    rw [hf] at hnode
    cases hnode
    rfl
  rw [look, h.place_join hx hfile, if_neg hfits]
  dsimp only
  rw [folder, h.at_eq, Option.getD_some, hf]
  rfl

theorem contents_join (h : t.Shows p d f) (hx : Path.IsFileName x) (hfits : ¬ p.TooLong x)
    {mark : Nat} {content : ByteArray} (hf : f.find? x = some (.file mark content)) :
    t.contents (p.join ⟨x⟩) = .ok content := by
  rw [contents, h.look_join hx hfits hf]

/-- **A directory of files lists their names in order.** -/
theorem files_eq (h : t.Shows p d f) (hf : f.onlyFiles = true)
    (hnames : ∀ x ∈ f.names, Path.IsFileName x ∧ ¬ p.TooLong x) :
    t.files p = (f.names.mergeSort fun a b => decide (a ≤ b)).map fun x => p.join ⟨x⟩ := by
  have hrows : (f.rows.map fun r => p.descend r.1) =
      (f.names.mergeSort fun a b => decide (a ≤ b)).map fun x => p.join ⟨x⟩ := by
    have hsplit : (f.rows.map fun r => p.descend r.1) = (f.rows.map (·.1)).map p.descend := by
      rw [List.map_map]
      rfl
    rw [hsplit, Folder.rows_of_onlyFiles hf, List.map_map]
    rfl
  rw [files, h.folder?_eq, Option.getD_some, hrows, List.filter_eq_self]
  intro q hq
  obtain ⟨x, hx, rfl⟩ := List.mem_map.mp hq
  rw [List.mem_mergeSort] at hx
  obtain ⟨hname, hfits⟩ := hnames x hx
  cases hnode : f.find? x with
  | none => exact absurd hx (Folder.find?_eq_none.mp hnode)
  | some node =>
    have hkind := Folder.kind_of_onlyFiles hf hnode
    cases node with
    | link target => cases hkind
    | dir inner => cases hkind
    | file mark content => rw [isFile, h.look_join hname hfits hnode]

/-! ## what changes it -/

/-- A new file in the directory. -/
theorem writeFile (h : t.Shows p d f) (hx : Path.IsFileName x) (hfree : f.find? x = none)
    {content : ByteArray} (hw : t.writeFile (p.join ⟨x⟩) content = .ok t') :
    ¬ p.TooLong x ∧
      t' = { t.put d x (.file t.nextMark content) with nextMark := t.nextMark + 1 } ∧
      t'.Shows p d (f.put x (.file t.nextMark content)) := by
  have hfile : ∀ node, f.find? x = some node → node.kind = .file := fun _ hnode =>
    Folder.kind_of_free hfree hnode
  have hplace := h.place_join hx hfile .create
  by_cases hlong : p.TooLong x
  · rw [FileTree.writeFile, fileSpot, hplace, if_pos hlong] at hw
    cases hw
  · rw [if_neg hlong] at hplace
    have hspot : t.fileSpot (p.join ⟨x⟩) = .ok (d, x, none) := by
      refine fileSpot_eq_ok.mpr ⟨hplace, ?_⟩
      rw [folder, h.at_eq, Option.getD_some, hfree]
      rfl
    rw [FileTree.writeFile, hspot] at hw
    cases hw
    exact ⟨hlong, rfl, h.mono (passable_put_file h.at_eq hfile _) rfl
      (Folder.at?_within_self h.at_eq)⟩

/-- A file that is opened elsewhere, and made if it is not there, is not seen. -/
theorem openFile (h : t.Shows p d f) {q : Path} {b : List Name} {n : Name}
    {found : Option (Nat × ByteArray)} (hspot : t.fileSpot q = .ok (b, n, found))
    (helse : ¬ d <+: b) {mark : Nat} (hopen : t.openFile q = .ok (mark, t')) : t'.Shows p d f := by
  rw [FileTree.openFile, hspot] at hopen
  cases found with
  | some file =>
    cases hopen
    exact h
  | none =>
    cases hopen
    obtain ⟨g, hg, -, hfile⟩ := site_of_fileSpot hspot
    have hbelow : ¬ b ++ [n] <+: d := Folder.not_below_of_kind hg hfile h.at_eq
    refine h.mono (passable_put_file hg hfile _) rfl ?_
    show (t.root.within _ b).at? d = some f
    rw [Folder.at?_within_apart (fun g y hy => Folder.find?_put_of_ne (Ne.symm hy) _ g) helse
      hbelow]
    exact h.at_eq

/-- A change by a mark that no file in the directory has is not seen. -/
theorem update (h : t.Shows p d f) {mark : Nat} (hmark : mark ∉ f.marks)
    (change : ByteArray → ByteArray) : (t.update mark change).Shows p d f := by
  refine h.mono (Folder.passable_changeMarked mark change t.root) rfl ?_
  rw [FileTree.update, Folder.at?_changeMarked, h.at_eq, Option.map_some,
    Folder.changeMarked_of_not_mem change hmark]

end Shows

end FileTree

end PageFuzz
