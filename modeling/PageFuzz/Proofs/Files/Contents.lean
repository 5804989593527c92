import PageFuzz.Files.Listing
import PageFuzz.Proofs.Files.Directory

/-!
# Changes of contents

A change of the contents of files leaves every name where it is: walks end where they did, a
directory lists the same files, and only the bytes that are read are other bytes.

* `look_update`          looking shows the same node with its contents changed;
* `files_update`         a directory lists the same files;
* `fileSpot_update`      a file stands at the same place;
* `fileSpot_openFile`    a file that is opened is there afterwards;
* `contents_of_fileSpot` and its bytes are what is read by its path.
-/

namespace PageFuzz

namespace Folder

/-- Groups in order of their names, whatever is done to their rows. -/
theorem inOrder_map {α β : Type} (change : α → β) (gs : List (Name × List α)) :
    inOrder (gs.map fun g => (g.1, g.2.map change)) = (inOrder gs).map change := by
  unfold inOrder
  have hsort := List.map_mergeSort (r := fun a b : Name × List α => decide (a.1 ≤ b.1))
    (s := fun a b : Name × List β => decide (a.1 ≤ b.1))
    (f := fun g => (g.1, g.2.map change)) (l := gs) fun _ _ _ _ => rfl
  rw [← hsort, List.flatMap_map, List.map_flatMap]

theorem groups_changeMarked (mark : Nat) (change : ByteArray → ByteArray) (f : Folder) :
    (f.changeMarked mark change).groups =
      f.groups.map fun g => (g.1, g.2.map fun r => (r.1, Node.changeMarked mark change r.2)) := by
  induction f with
  | nil => rfl
  | file n m content rest ih =>
    rw [changeMarked, groups, groups, ih]
    rfl
  | link n target rest ih =>
    rw [changeMarked, groups, groups, ih]
    rfl
  | dir n inner rest hinner ih =>
    rw [changeMarked, groups, groups, ih, hinner, inOrder_map, List.map_cons, List.map_cons,
      List.map_map, List.map_map]
    rfl

theorem rows_changeMarked (mark : Nat) (change : ByteArray → ByteArray) (f : Folder) :
    (f.changeMarked mark change).rows =
      f.rows.map fun r => (r.1, Node.changeMarked mark change r.2) := by
  unfold rows
  rw [groups_changeMarked, inOrder_map]

end Folder

namespace FileTree

/-! ## looking after a change of contents -/

section
variable (t : FileTree) (mark : Nat) (change : ByteArray → ByteArray)

theorem place_update (ending : Ending) (p : Path) :
    (t.update mark change).place ending p = t.place ending p := by
  unfold place update
  dsimp only
  rw [Place.walk_congr (Folder.kinds_changeMarked mark change t.root)]

theorem folder_update (base : List Name) :
    (t.update mark change).folder base = (t.folder base).changeMarked mark change := by
  unfold folder update
  dsimp only
  rw [Folder.at?_changeMarked]
  cases t.root.at? base <;> rfl

theorem look_update (p : Path) :
    (t.update mark change).look p = (t.look p).map (Folder.Node.changeMarked mark change) := by
  unfold look
  rw [place_update]
  split
  · rfl
  · rw [folder_update]
    rfl
  · next base name asDir _ =>
    rw [folder_update, Folder.find?_changeMarked]
    cases (t.folder base).find? name with
    | none => rfl
    | some node =>
      cases node with
      | file m content => cases asDir <;> rfl
      | link target => cases asDir <;> rfl
      | dir inner => rfl

theorem folder?_update (p : Path) :
    (t.update mark change).folder? p = (t.folder? p).map (Folder.changeMarked mark change) := by
  unfold folder?
  rw [look_update]
  cases t.look p with
  | error e => rfl
  | ok node => cases node <;> rfl

theorem isDir_update (p : Path) : (t.update mark change).isDir p = t.isDir p := by
  unfold isDir
  rw [folder?_update, Option.isSome_map]

theorem isFile_update (p : Path) : (t.update mark change).isFile p = t.isFile p := by
  unfold isFile
  rw [look_update]
  cases t.look p with
  | error e => rfl
  | ok node => cases node <;> rfl

/-- A directory lists the same files. -/
theorem files_update (dir : Path) : (t.update mark change).files dir = t.files dir := by
  have hfile : (t.update mark change).isFile = t.isFile := funext (isFile_update t mark change)
  unfold files
  rw [hfile, folder?_update]
  congr 1
  cases t.folder? dir with
  | none => rfl
  | some f =>
    show List.map _ (f.changeMarked mark change).rows = List.map _ f.rows
    rw [Folder.rows_changeMarked, List.map_map]
    rfl

end

/-! ## where a file stands -/

section
variable {t : FileTree} {p : Path} {base : List Name} {name : Name}

/-- A file stands or may be made where the path leads to, if that is a file or free. -/
theorem fileSpot_eq_ok {found : Option (Nat × ByteArray)} :
    t.fileSpot p = .ok (base, name, found) ↔
      t.place .create p = .ok (.entry base name false) ∧
        (t.folder base).find? name = found.map fun f => .file f.1 f.2 := by
  unfold fileSpot
  constructor
  · intro h
    split at h
    · cases h
    · cases h
    · next b x asDir hplace =>
      split at h
      · cases h
      · next hdir =>
        have hname : asDir = false := by simpa using hdir
        split at h
        · next hf =>
          cases h
          exact ⟨hname ▸ hplace, hf⟩
        · next m old hf =>
          cases h
          exact ⟨hname ▸ hplace, hf⟩
        · cases h
        · cases h
  · rintro ⟨hplace, hf⟩
    rw [hplace]
    dsimp only
    rw [if_neg Bool.false_ne_true, hf]
    cases found <;> rfl

/-- A file stands at the same place after a change of contents, and is changed if it has the
mark. -/
theorem fileSpot_update_any {mark : Nat} {content : ByteArray} (m : Nat)
    (change : ByteArray → ByteArray)
    (h : t.fileSpot p = .ok (base, name, some (mark, content))) :
    (t.update m change).fileSpot p =
      .ok (base, name, some (mark, if mark = m then change content else content)) := by
  obtain ⟨hplace, hf⟩ := fileSpot_eq_ok.mp h
  refine fileSpot_eq_ok.mpr ⟨?_, ?_⟩
  · rw [place_update, hplace]
  · rw [folder_update, Folder.find?_changeMarked, hf]
    rfl

theorem fileSpot_update {mark : Nat} {content : ByteArray} (change : ByteArray → ByteArray)
    (h : t.fileSpot p = .ok (base, name, some (mark, content))) :
    (t.update mark change).fileSpot p = .ok (base, name, some (mark, change content)) := by
  rw [fileSpot_update_any mark change h, if_pos rfl]

/-- A walk that ends at an entry comes to its last name in every tree that has the same directories
and links. -/
theorem route_of_place {ending : Ending} {asDir : Bool}
    (h : t.place ending p = .ok (.entry base name asDir)) :
    Place.IsPlain name ∧ (∃ g, t.root.at? base = some g) ∧ ∀ (r : Folder) (ending₂ : Ending),
      t.root.Passable r →
      (∀ d, Place.replacesLast ending d = true → Place.replacesLast ending₂ d = true) →
      ∃ links, ({ t with root := r } : FileTree).place ending₂ p =
        Place.walk r ending₂ links base asDir [name] := by
  obtain ⟨hne, hzero, hshort⟩ := place_eq_ok h
  rw [place_of_short hne hzero hshort] at h
  obtain ⟨hplain, links, hroute⟩ := Place.route_of_walk h
  refine ⟨hplain, folder_of_walk h, fun r ending₂ hpass hle => ⟨links, ?_⟩⟩
  rw [place_of_short hne hzero hshort, ((hroute.mono hpass).of_le hle).walk_eq]

/-- A path leads to the place of its file also when nothing is to be made there. -/
theorem place_of_fileSpot {found : Option (Nat × ByteArray)}
    (h : t.fileSpot p = .ok (base, name, found)) :
    t.place .follow p = .ok (.entry base name false) := by
  obtain ⟨hplace, hf⟩ := fileSpot_eq_ok.mp h
  obtain ⟨hplain, ⟨g, hg⟩, hmove⟩ := route_of_place hplace
  obtain ⟨links, hfollow⟩ := hmove t.root .follow (fun _ _ _ hk _ => hk) fun _ _ => rfl
  rw [folder, hg, Option.getD_some] at hf
  have hkinds : t.root.kinds base name = some (found.map fun _ => .file) := by
    rw [Folder.kinds, hg, Option.map_some, hf]
    cases found <;> rfl
  rw [Place.walk_plain hplain, hkinds] at hfollow
  cases found <;> exact hfollow

/-- What stands at the place of a file is found by its path, -/
theorem look_of_fileSpot {mark : Nat} {content : ByteArray}
    (h : t.fileSpot p = .ok (base, name, some (mark, content))) :
    t.look p = .ok (.file mark content) := by
  rw [look, place_of_fileSpot h]
  dsimp only
  rw [(fileSpot_eq_ok.mp h).2]
  rfl

/-- and nothing is found where a file could be made. -/
theorem look_of_free (h : t.fileSpot p = .ok (base, name, none)) :
    t.look p = .error .notFound := by
  rw [look, place_of_fileSpot h]
  dsimp only
  rw [(fileSpot_eq_ok.mp h).2]
  rfl

theorem contents_of_fileSpot {mark : Nat} {content : ByteArray}
    (h : t.fileSpot p = .ok (base, name, some (mark, content))) : t.contents p = .ok content := by
  rw [contents, look_of_fileSpot h]

/-- A file that has been opened is there: it was there before, or it is new and empty. -/
theorem fileSpot_openFile {mark : Nat} {t' : FileTree} (h : t.openFile p = .ok (mark, t')) :
    ∃ base name content, t'.fileSpot p = .ok (base, name, some (mark, content)) ∧
      (t' = t ∨ t.look p = .error .notFound ∧ content = .empty) := by
  unfold openFile at h
  split at h
  · cases h
  · next hspot =>
    cases h
    exact ⟨_, _, _, hspot, .inl rfl⟩
  · next base name hspot =>
    obtain ⟨hplace, hf⟩ := fileSpot_eq_ok.mp hspot
    obtain ⟨hplain, ⟨g, hg⟩, hmove⟩ := route_of_place hplace
    rw [folder, hg, Option.getD_some] at hf
    have hpass := passable_put hg hf (.file t.nextMark .empty)
    obtain ⟨links, hcreate⟩ := hmove _ .create hpass fun _ hd => hd
    have hat : (t.put base name (.file t.nextMark .empty)).root.at? base =
        some (g.put name (.file t.nextMark .empty)) := Folder.at?_within_self hg
    have hkinds : (t.put base name (.file t.nextMark .empty)).root.kinds base name =
        some (some .file) := by
      rw [Folder.kinds, hat, Option.map_some, Folder.find?_put_self]
      rfl
    rw [Place.walk_plain hplain, hkinds] at hcreate
    cases h
    refine ⟨base, name, .empty, fileSpot_eq_ok.mpr ⟨hcreate, ?_⟩, .inr ⟨look_of_free hspot, rfl⟩⟩
    show (folder (t.put base name _) base).find? name = _
    rw [folder, hat, Option.getD_some, Folder.find?_put_self]
    rfl

end

end FileTree

end PageFuzz
