import PageFuzz.Files.Tree
import PageFuzz.Proofs.Files.Names
import PageFuzz.Proofs.Files.Routes

/-!
# A directory at a path

A path that leads to a directory leads there still after files in it have been written and removed,
whatever links the path goes through: a walk goes through directories and links, never through a
file.

* `Holds`             the path leads to a directory, and what that directory holds;
* `holds_makeDir`     a directory that has just been made holds nothing;
* `Holds.folder?_eq`  looking at the path shows what it holds;
* `Holds.writeFile`   writing a file in it gives that file its content;
* `Holds.removeFile`  removing takes an entry out of it;
* `Holds.contents`    reading a file in it gives the bytes of its entry.
-/

namespace PageFuzz

/-- a file of that name in that directory has a longer name or path than there can be -/
def Path.TooLong (p : Path) (x : Name) : Prop :=
  Place.longestPath < (p.join ⟨x⟩).bytes.length ∨ Place.longestName < x.length

instance (p : Path) (x : Name) : Decidable (p.TooLong x) := inferInstanceAs (Decidable (_ ∨ _))

namespace FileTree

/-- The path, no link being its last name, leads to a directory that holds `f`. -/
def Holds (t : FileTree) (p : Path) (f : Folder) : Prop :=
  ∃ base name asDir, t.place .keep p = .ok (.entry base name asDir) ∧
    t.root.at? (base ++ [name]) = some f

/-- all that a walk to a directory has found, name by name -/
structure Site (t : FileTree) (p : Path) (base : List Name) (name : Name) (f : Folder) : Prop where
  bytes_ne_nil : p.bytes ≠ []
  zero_not_mem : (0 : UInt8) ∉ p.bytes
  short : p.bytes.length ≤ Place.longestPath
  plain : Place.IsPlain name
  route : ∃ links asDir, Place.Route t.root .keep links base asDir name Place.mostLinks
    (if p.isAbsolute then [] else t.here) p.endsWithSlash p.names
  at_eq : t.root.at? (base ++ [name]) = some f

/-! ## looking -/

/-- The checks of a path come before the walk. -/
theorem place_of_short {t : FileTree} {p : Path} (hne : p.bytes ≠ []) (hzero : (0 : UInt8) ∉ p.bytes)
    (hshort : p.bytes.length ≤ Place.longestPath) (ending : Ending) :
    t.place ending p = Place.walk t.root ending Place.mostLinks
      (if p.isAbsolute then [] else t.here) p.endsWithSlash p.names := by
  have h1 : p.bytes.contains 0 = false := by simpa using hzero
  have h2 : p.bytes.isEmpty = false := by simpa using hne
  rw [place, h1, h2, if_neg Bool.false_ne_true, if_neg Bool.false_ne_true,
    if_neg (Nat.not_lt.mpr hshort)]

theorem place_eq_ok {t : FileTree} {p : Path} {ending : Ending} {place : Place}
    (h : t.place ending p = .ok place) :
    p.bytes ≠ [] ∧ (0 : UInt8) ∉ p.bytes ∧ p.bytes.length ≤ Place.longestPath := by
  unfold FileTree.place at h
  split at h
  · cases h
  · next h1 =>
    split at h
    · cases h
    · next h2 =>
      split at h
      · cases h
      · next h3 => exact ⟨by simpa using h2, by simpa using h1, Nat.not_lt.mp h3⟩

theorem Holds.site {t : FileTree} {p : Path} {f : Folder} (h : t.Holds p f) :
    ∃ base name, Site t p base name f := by
  obtain ⟨base, name, asDir, hplace, hat⟩ := h
  obtain ⟨hne, hzero, hshort⟩ := place_eq_ok hplace
  rw [place_of_short hne hzero hshort] at hplace
  obtain ⟨hplain, links, hroute⟩ := Place.route_of_walk hplace
  exact ⟨base, name, hne, hzero, hshort, hplain, ⟨links, asDir, hroute⟩, hat⟩

namespace Site

variable {t : FileTree} {p : Path} {base : List Name} {name : Name} {f : Folder}

/-- Whatever the ending, a walk along the path ends at the directory. -/
theorem place_eq (h : Site t p base name f) (ending : Ending) :
    ∃ asDir, t.place ending p = .ok (.entry base name asDir) := by
  obtain ⟨links, asDir, hr⟩ := h.route
  refine ⟨asDir, ?_⟩
  have hroute : Place.Route t.root ending links base asDir name Place.mostLinks
      (if p.isAbsolute then [] else t.here) p.endsWithSlash p.names :=
    hr.of_le fun d hd => nomatch hd
  rw [place_of_short h.bytes_ne_nil h.zero_not_mem h.short, hroute.walk_eq,
    Place.walk_plain h.plain, Folder.kinds_eq_dir h.at_eq]
  rfl

theorem holds (h : Site t p base name f) : t.Holds p f := by
  obtain ⟨asDir, hplace⟩ := h.place_eq .keep
  exact ⟨base, name, asDir, hplace, h.at_eq⟩

theorem folder_eq (h : Site t p base name f) : t.folder (base ++ [name]) = f := by
  rw [folder, h.at_eq]
  rfl

/-- Looking at the path shows the directory. -/
theorem folder?_eq (h : Site t p base name f) : t.folder? p = some f := by
  obtain ⟨asDir, hplace⟩ := h.place_eq .follow
  obtain ⟨above, ha, hn⟩ := Folder.find?_eq_dir h.at_eq
  have hlook : t.look p = .ok (.dir f) := by
    rw [look, hplace]
    dsimp only
    rw [folder, ha, Option.getD_some, hn]
  rw [folder?, hlook]

/-! ## a file in the directory -/

variable {x : Name}

theorem kinds_in (h : Site t p base name f) :
    t.root.kinds (base ++ [name]) x = some ((f.find? x).map Node.kind) := by
  rw [Folder.kinds, h.at_eq]
  rfl

/-- A walk to a name in the directory, where a file is or may be made, ends there. -/
theorem place_join (h : Site t p base name f) (hx : Path.IsFileName x)
    (hfile : ∀ node, f.find? x = some node → node.kind = .file) (ending : Ending) :
    t.place ending (p.join ⟨x⟩) =
      if p.TooLong x then .error .nameTooLong else .ok (.entry (base ++ [name]) x false) := by
  obtain ⟨links, asDir, hr⟩ := h.route
  have hzero := Path.zero_not_mem_join h.bytes_ne_nil hx h.zero_not_mem
  have hne := Path.join_ne_nil h.bytes_ne_nil hx
  by_cases hpath : Place.longestPath < (p.join ⟨x⟩).bytes.length
  · have h1 : (p.join ⟨x⟩).bytes.contains 0 = false := by simpa using hzero
    have h2 : (p.join ⟨x⟩).bytes.isEmpty = false := by simpa using hne
    rw [if_pos (.inl hpath), FileTree.place, h1, h2, if_neg Bool.false_ne_true,
      if_neg Bool.false_ne_true, if_pos hpath]
  · have hwalk : t.place ending (p.join ⟨x⟩) =
        Place.walk t.root ending links (base ++ [name]) false [x] := by
      rw [place_of_short hne hzero (Nat.not_lt.mp hpath), Path.names_join h.bytes_ne_nil hx,
        Path.isAbsolute_join h.bytes_ne_nil hx, Path.endsWithSlash_join h.bytes_ne_nil hx,
        hr.walk_append ending false (List.cons_ne_nil x []), Place.walk_plain h.plain,
        Folder.kinds_eq_dir h.at_eq]
      rfl
    rw [hwalk]
    by_cases hlong : Place.longestName < x.length
    · rw [if_pos (.inr hlong), Place.walk_of_long hx.ne_dot hx.ne_up hlong]
    · have hplain : Place.IsPlain x := ⟨hx.ne_dot, hx.ne_up, Nat.not_lt.mp hlong⟩
      have hfits : ¬ p.TooLong x := not_or_intro hpath hlong
      rw [if_neg hfits, Place.walk_plain hplain, h.kinds_in]
      cases hf : f.find? x with
      | none => rfl
      | some node =>
        rw [Option.map_some, hfile node hf]
        rfl

/-- A change at one name, a file or free, leaves all the rest as it was. -/
theorem within (h : Site t p base name f)
    (hfile : ∀ node, f.find? x = some node → node.kind = .file) {change : Folder → Folder}
    (hchange : ∀ g y, y ≠ x → (change g).find? y = g.find? y) {t' : FileTree}
    (hroot : t'.root = t.root.within change (base ++ [name])) (hhere : t'.here = t.here) :
    Site t' p base name (change f) where
  bytes_ne_nil := h.bytes_ne_nil
  zero_not_mem := h.zero_not_mem
  short := h.short
  plain := h.plain
  route := by
    obtain ⟨links, asDir, hr⟩ := h.route
    refine ⟨links, asDir, ?_⟩
    rw [hhere, hroot]
    exact hr.mono (Folder.passable_within hchange h.at_eq hfile)
  at_eq := hroot ▸ Folder.at?_within_self h.at_eq

theorem put (h : Site t p base name f)
    (hfile : ∀ node, f.find? x = some node → node.kind = .file) (node : Node) (nextMark : Nat) :
    Site { t.put (base ++ [name]) x node with nextMark } p base name (f.put x node) :=
  h.within hfile (fun g _ hy => Folder.find?_put_of_ne (Ne.symm hy) node g) rfl rfl

theorem update (h : Site t p base name f) (mark : Nat) (change : ByteArray → ByteArray) :
    Site (t.update mark change) p base name (f.changeMarked mark change) where
  bytes_ne_nil := h.bytes_ne_nil
  zero_not_mem := h.zero_not_mem
  short := h.short
  plain := h.plain
  route := by
    obtain ⟨links, asDir, hr⟩ := h.route
    exact ⟨links, asDir, hr.mono (Folder.passable_changeMarked mark change t.root)⟩
  at_eq := by
    rw [FileTree.update, Folder.at?_changeMarked, h.at_eq]
    rfl

theorem erase (h : Site t p base name f)
    (hfile : ∀ node, f.find? x = some node → node.kind = .file) :
    Site (t.erase (base ++ [name]) x) p base name (f.erase x) :=
  h.within hfile (fun g _ hy => Folder.find?_erase_of_ne (Ne.symm hy) g) rfl rfl

end Site

namespace Holds

variable {t : FileTree} {p : Path} {f : Folder} {x : Name}

theorem folder?_eq (h : t.Holds p f) : t.folder? p = some f := by
  obtain ⟨base, name, hsite⟩ := h.site
  exact hsite.folder?_eq

/-- Writing a file gives it its content in the directory, unless its name or its path is too
long. -/
theorem writeFile (h : t.Holds p f) (hx : Path.IsFileName x)
    (hfile : ∀ node, f.find? x = some node → node.kind = .file) (content : ByteArray) :
    p.TooLong x ∧ t.writeFile (p.join ⟨x⟩) content = .error .nameTooLong ∨
      ¬ p.TooLong x ∧ ∃ t', t.writeFile (p.join ⟨x⟩) content = .ok t' ∧
        t'.Holds p (f.give x t.nextMark content) := by
  obtain ⟨base, name, hsite⟩ := h.site
  have hplace := hsite.place_join hx hfile .create
  by_cases hlong : p.TooLong x
  · rw [if_pos hlong] at hplace
    refine .inl ⟨hlong, ?_⟩
    rw [FileTree.writeFile, fileSpot, hplace]
  · rw [if_neg hlong] at hplace
    refine .inr ⟨hlong, ?_⟩
    rw [FileTree.writeFile, fileSpot, hplace]
    dsimp only
    rw [if_neg Bool.false_ne_true, hsite.folder_eq, Folder.give]
    cases hf : f.find? x with
    | none => exact ⟨_, rfl, (hsite.put hfile _ _).holds⟩
    | some node =>
      cases node with
      | file mark old => exact ⟨_, rfl, (hsite.update mark _).holds⟩
      | link target => cases hfile _ hf
      | dir inner => cases hfile _ hf

/-- Only a file that is there can be removed, and then it is gone. -/
theorem removeFile (h : t.Holds p f) (hx : Path.IsFileName x)
    (hfile : ∀ node, f.find? x = some node → node.kind = .file) {t' : FileTree}
    (hremove : t.removeFile (p.join ⟨x⟩) = .ok t') :
    x ∈ f.names ∧ t'.Holds p (f.erase x) := by
  obtain ⟨base, name, hsite⟩ := h.site
  have hplace := hsite.place_join hx hfile .keep
  rw [FileTree.removeFile, hplace] at hremove
  by_cases hlong : p.TooLong x
  · rw [if_pos hlong] at hremove
    cases hremove
  · rw [if_neg hlong] at hremove
    dsimp only at hremove
    rw [hsite.folder_eq] at hremove
    cases hf : f.find? x with
    | none =>
      rw [hf] at hremove
      cases hremove
    | some node =>
      have hmem := Folder.mem_names_of_find hf
      rw [hf] at hremove
      cases node with
      | file mark content =>
        cases hremove
        exact ⟨hmem, (hsite.erase hfile).holds⟩
      | link target => exact absurd (hfile _ hf) nofun
      | dir inner => exact absurd (hfile _ hf) nofun

/-- A file in the directory is read by its path. -/
theorem contents (h : t.Holds p f) (hx : Path.IsFileName x) {mark : Nat} {content : ByteArray}
    (hf : f.find? x = some (.file mark content)) (hfits : ¬ p.TooLong x) :
    t.contents (p.join ⟨x⟩) = .ok content := by
  obtain ⟨base, name, hsite⟩ := h.site
  have hfile : ∀ node, f.find? x = some node → node.kind = .file := by
    intro node hnode
    rw [hf] at hnode
    cases hnode
    rfl
  have hplace := hsite.place_join hx hfile .follow
  rw [if_neg hfits] at hplace
  have hlook : t.look (p.join ⟨x⟩) = .ok (.file mark content) := by
    rw [look, hplace]
    dsimp only
    rw [hsite.folder_eq, hf]
    rfl
  rw [FileTree.contents, hlook]

end Holds

/-! ## a new directory -/

/-- A walk does not end in a directory that is gone. -/
theorem folder_of_walk {root : Folder} {ending : Ending} {links : Nat} {start base : List Name}
    {asDir asDir' : Bool} {ns : List Name} {name : Name}
    (h : Place.walk root ending links start asDir ns = .ok (.entry base name asDir')) :
    ∃ g, root.at? base = some g := by
  obtain ⟨hplain, links', hroute⟩ := Place.route_of_walk h
  rw [hroute.walk_eq, Place.walk_plain hplain, Folder.kinds] at h
  cases ha : root.at? base with
  | none =>
    rw [ha] at h
    cases h
  | some g => exact ⟨g, rfl⟩

theorem passable_put {t : FileTree} {base : List Name} {name : Name} {g : Folder}
    (hg : t.root.at? base = some g) (hfree : g.find? name = none) (node : Node) :
    t.root.Passable (t.put base name node).root := by
  refine Folder.passable_within (fun f y hy => Folder.find?_put_of_ne (Ne.symm hy) node f) hg ?_
  intro old hold
  rw [hfree] at hold
  cases hold

/-- A directory that is put where nothing is holds nothing. -/
theorem site_put_dir {t : FileTree} {p : Path} {base : List Name} {name : Name} {asDir : Bool}
    {g : Folder} (hplace : t.place .keep p = .ok (.entry base name asDir))
    (hg : t.root.at? base = some g) (hfree : g.find? name = none) :
    Site (t.put base name (.dir .nil)) p base name .nil := by
  obtain ⟨hne, hzero, hshort⟩ := place_eq_ok hplace
  rw [place_of_short hne hzero hshort] at hplace
  obtain ⟨hplain, links, hroute⟩ := Place.route_of_walk hplace
  have hpass : t.root.Passable (t.put base name (.dir .nil)).root := passable_put hg hfree _
  have hat : (t.put base name (.dir .nil)).root.at? (base ++ [name]) = some .nil := by
    rw [Folder.at?_append, put, Folder.at?_within_self hg]
    show (g.put name (.dir .nil)).at? [name] = some .nil
    rw [Folder.at?, Folder.find?_put_self]
    rfl
  exact ⟨hne, hzero, hshort, hplain, ⟨links, asDir, hroute.mono hpass⟩, hat⟩

/-- A directory is made at a name that was free. -/
theorem site_makeDir {t t' : FileTree} {p : Path} (h : t.makeDir p = .ok t') :
    ∃ base name g, t.root.at? base = some g ∧ g.find? name = none ∧
      t' = t.put base name (.dir .nil) ∧ Site t' p base name .nil := by
  unfold makeDir make at h
  split at h
  · cases h
  · cases h
  · next base name asDir hplace =>
    have hwalk := hplace
    obtain ⟨hne, hzero, hshort⟩ := place_eq_ok hplace
    rw [place_of_short hne hzero hshort] at hwalk
    obtain ⟨g, hg⟩ := folder_of_walk hwalk
    split at h
    · cases h
    · next hf =>
      rw [folder, hg, Option.getD_some] at hf
      cases h
      exact ⟨base, name, g, hg, hf, rfl, site_put_dir hplace hg hf⟩

/-- A directory that has just been made holds nothing. -/
theorem holds_makeDir {t t' : FileTree} {p : Path} (h : t.makeDir p = .ok t') :
    t'.Holds p .nil := by
  obtain ⟨base, name, g, -, -, -, hsite⟩ := site_makeDir h
  exact hsite.holds

end FileTree

end PageFuzz
