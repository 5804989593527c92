import Mathlib.Data.List.Nodup
import PageFuzz.Files.Storage
import PageFuzz.Proofs.Files.Directory
import PageFuzz.Proofs.Files.Numbered
import PageFuzz.Proofs.Text.Pieces
import PageFuzz.Session.Basic

/-!
# The pages in a directory

The pages that a session has written are the entries of its directory: one entry for each of them,
under the name that its number gives it.

* `fileName_injective`  different numbers have different names;
* `Shelf`               the directory holds the files of some pages and nothing else;
* `Shelf.write`         writing a page under a new number adds it, or fails and adds nothing;
* `Shelf.remove`        removing a number takes its page away, or fails and takes nothing;
* `Honest`              the same of a storage, which may also fail on its own;
* `honest_hazard`       the tree, with faults and with others at work in it, is such a storage.
-/

namespace PageFuzz.Session

/-! ## names -/

/-- the name of the file of a page -/
def fileName (seed : Seed) (n : Nat) : Name := (Path.ofString (artifactName seed n)).bytes

theorem artifactPath_eq (s : Session) (n : Nat) :
    s.artifactPath n = s.directory.join ⟨fileName s.seed n⟩ := rfl

/-- A seed is written with digits and points. -/
theorem mem_seed {seed : Seed} {c : Char} (hc : c ∈ seed.text.toList) :
    c.isDigit = true ∨ c = '.' := by
  by_cases hpoint : c = '.'
  · exact .inr hpoint
  · have hcut : (c == '.') = false := by simpa using hpoint
    obtain ⟨piece, hpiece, hin⟩ := Text.mem_splitOnP (p := (· == '.')) hc hcut
    have hdigits : ∀ {ds : List Char}, Text.isDigits ds = true → c ∈ ds → c.isDigit = true := by
      intro ds hds hmem
      rw [Text.isDigits, Bool.and_eq_true, List.all_eq_true] at hds
      exact hds.2 c hmem
    have hseed := seed.isSeed
    unfold isSeedText at hseed
    left
    split at hseed
    · next whole hsplit =>
      rw [hsplit, List.mem_singleton] at hpiece
      exact hdigits hseed (hpiece ▸ hin)
    · next whole fraction hsplit =>
      rw [Bool.and_eq_true] at hseed
      rw [hsplit, List.mem_cons, List.mem_singleton] at hpiece
      rcases hpiece with rfl | rfl
      · exact hdigits hseed.1 hin
      · exact hdigits hseed.2 hin
    · cases hseed

theorem val_of_mem_seed {seed : Seed} {c : Char} (hc : c ∈ seed.text.toList) :
    c.val.toNat ≤ 127 ∧ c.val.toNat ≠ 0 ∧ c.val.toNat ≠ 47 := by
  rcases mem_seed hc with hdigit | rfl
  · exact val_of_isDigit hdigit
  · decide

theorem isFileName (seed : Seed) (n : Nat) : Path.IsFileName (fileName seed n) := by
  refine Path.isFileName_numbered (fun c hc => ?_) n
  rw [String.toList_append, List.mem_append] at hc
  rcases hc with hc | hc
  · exact val_of_mem_seed hc
  · obtain rfl : c = '.' := List.mem_singleton.mp hc
    decide

/-- Different numbers have different names. -/
theorem fileName_injective {seed : Seed} {m n : Nat} (h : fileName seed m = fileName seed n) :
    m = n := Path.numbered_injective h

/-! ## pages in a directory -/

/-- The directory holds one file for each page, under the name of its number, and nothing else. -/
structure Shelf (dir : Path) (seed : Seed) (t : FileTree) (f : Folder)
    (pages : List (Nat × String)) : Prop where
  holds : t.Holds dir f
  names_eq : f.names = pages.map fun page => fileName seed page.1
  file : ∀ page ∈ pages,
    ∃ mark, f.find? (fileName seed page.1) = some (.file mark page.2.toByteArray)
  fits : ∀ page ∈ pages, ¬ dir.TooLong (fileName seed page.1)
  nodup : (pages.map Prod.fst).Nodup

theorem shelf_empty {dir : Path} (seed : Seed) {t : FileTree} (h : t.Holds dir .nil) :
    Shelf dir seed t .nil [] where
  holds := h
  names_eq := rfl
  file := nofun
  fits := nofun
  nodup := List.nodup_nil

namespace Shelf

variable {dir : Path} {seed : Seed} {t : FileTree} {f : Folder} {pages : List (Nat × String)}

theorem mem_names (h : Shelf dir seed t f pages) {n : Nat} :
    fileName seed n ∈ f.names ↔ n ∈ pages.map Prod.fst := by
  rw [h.names_eq, List.mem_map, List.mem_map]
  constructor
  · rintro ⟨page, hpage, he⟩
    exact ⟨page, hpage, fileName_injective he⟩
  · rintro ⟨page, hpage, rfl⟩
    exact ⟨page, hpage, rfl⟩

/-- Whatever has the name of a number is a file. -/
theorem kind_eq (h : Shelf dir seed t f pages) (n : Nat) (node : Node)
    (hnode : f.find? (fileName seed n) = some node) : node.kind = .file := by
  have hmem := h.mem_names.mp (Folder.mem_names_of_find hnode)
  obtain ⟨page, hpage, rfl⟩ := List.mem_map.mp hmem
  obtain ⟨mark, hfile⟩ := h.file page hpage
  rw [hfile] at hnode
  cases hnode
  rfl

/-- A page is added under a new number, or its name is too long and nothing changes. -/
theorem write (h : Shelf dir seed t f pages) {n : Nat} (hn : n ∉ pages.map Prod.fst)
    (text : String) {r : Except IoCause Unit} {t' : FileTree}
    (hw : FileTree.storage.write t (dir.join ⟨fileName seed n⟩) text = (r, t')) :
    (r = .ok () ∧ ∃ f', Shelf dir seed t' f' (pages ++ [(n, text)])) ∨
      (∃ cause, r = .error cause) ∧ t' = t := by
  have hstorage : t.after (t.writeFile (dir.join ⟨fileName seed n⟩) text.toByteArray) = (r, t') := hw
  have hnew : fileName seed n ∉ f.names := fun hmem => hn (h.mem_names.mp hmem)
  have hwritten := h.holds.writeFile (isFileName seed n) (h.kind_eq n) text.toByteArray
  rw [Folder.give_of_free (Folder.find?_eq_none.mpr hnew)] at hwritten
  rcases hwritten with ⟨-, herror⟩ | ⟨hfits, t₁, hok, hholds⟩
  · rw [herror] at hstorage
    cases hstorage
    exact .inr ⟨⟨_, rfl⟩, rfl⟩
  · rw [hok] at hstorage
    cases hstorage
    refine .inl ⟨rfl, _, hholds, ?_, ?_, ?_, ?_⟩
    · rw [Folder.names_put _ hnew, h.names_eq, List.map_append, List.map_singleton]
    · intro page hpage
      rcases List.mem_append.mp hpage with hold | hlast
      · have hne : fileName seed n ≠ fileName seed page.1 := by
          intro he
          rw [fileName_injective he] at hn
          exact hn (List.mem_map_of_mem hold)
        rw [Folder.find?_put_of_ne hne]
        exact h.file page hold
      · rw [List.mem_singleton.mp hlast]
        exact ⟨t.nextMark, Folder.find?_put_self _ _ f⟩
    · intro page hpage
      rcases List.mem_append.mp hpage with hold | hlast
      · exact h.fits page hold
      · rw [List.mem_singleton.mp hlast]
        exact hfits
    · rw [List.map_append, List.nodup_append]
      refine ⟨h.nodup, List.nodup_singleton n, ?_⟩
      intro m hm k hk he
      have hkn : k = n := List.mem_singleton.mp hk
      rw [he, hkn] at hm
      exact hn hm

/-- The page of a number is taken away, or nothing changes. -/
theorem remove (h : Shelf dir seed t f pages) {n : Nat} {r : Except IoCause Unit} {t' : FileTree}
    (hr : FileTree.storage.remove t (dir.join ⟨fileName seed n⟩) = (r, t')) :
    (r = .ok () ∧ ∃ f', Shelf dir seed t' f' (pages.filter fun page => page.1 ≠ n)) ∨
      (∃ cause, r = .error cause) ∧ t' = t := by
  have hstorage : t.after (t.removeFile (dir.join ⟨fileName seed n⟩)) = (r, t') := hr
  cases hremove : t.removeFile (dir.join ⟨fileName seed n⟩) with
  | error cause =>
    rw [hremove] at hstorage
    cases hstorage
    exact .inr ⟨⟨cause, rfl⟩, rfl⟩
  | ok t₁ =>
    rw [hremove] at hstorage
    cases hstorage
    obtain ⟨-, hholds⟩ := h.holds.removeFile (isFileName seed n) (h.kind_eq n) hremove
    refine .inl ⟨rfl, _, hholds, ?_, ?_, ?_, ?_⟩
    · have hnodup : f.names.Nodup := by
        have hnames : f.names = (pages.map Prod.fst).map (fileName seed) := by
          rw [h.names_eq, List.map_map]
          rfl
        rw [hnames]
        exact h.nodup.map fun _ _ => fileName_injective
      rw [Folder.names_erase, hnodup.erase_eq_filter, h.names_eq, List.filter_map]
      congr 1
      refine List.filter_congr fun page _ => ?_
      show (fileName seed page.1 != fileName seed n) = decide (page.1 ≠ n)
      by_cases he : page.1 = n
      · simp [he]
      · have hne : fileName seed page.1 ≠ fileName seed n := fun hf => he (fileName_injective hf)
        simp [he, hne]
    · intro page hpage
      obtain ⟨hold, hne⟩ := List.mem_filter.mp hpage
      have hname : fileName seed n ≠ fileName seed page.1 := by
        intro he
        rw [fileName_injective he] at hne
        simp at hne
      rw [Folder.find?_erase_of_ne hname]
      exact h.file page hold
    · intro page hpage
      exact h.fits page (List.mem_filter.mp hpage).1
    · exact h.nodup.sublist (List.filter_sublist.map _)

/-- Each page is read by its path. -/
theorem contents (h : Shelf dir seed t f pages) {page : Nat × String} (hpage : page ∈ pages) :
    t.contents (dir.join ⟨fileName seed page.1⟩) = .ok page.2.toByteArray := by
  obtain ⟨mark, hfile⟩ := h.file page hpage
  exact h.holds.contents (isFileName seed page.1) hfile (h.fits page hpage)

end Shelf

/-! ## storages that fail -/

/-- the directory holds the files of these pages -/
def Shelved (dir : Path) (seed : Seed) (t : FileTree) (pages : List (Nat × String)) : Prop :=
  ∃ f, Shelf dir seed t f pages

/-- A storage that may fail, but does nothing else to the directory than it says. -/
structure Honest (store : Storage FileTree) (dir : Path) (seed : Seed) : Prop where
  write : ∀ {t : FileTree} {pages : List (Nat × String)} {n : Nat} (text : String),
    Shelved dir seed t pages → n ∉ pages.map Prod.fst →
    ∃ t', store.write t (dir.join ⟨fileName seed n⟩) text = (.ok (), t') ∧
        Shelved dir seed t' (pages ++ [(n, text)]) ∨
      ∃ cause, store.write t (dir.join ⟨fileName seed n⟩) text = (.error cause, t') ∧
        Shelved dir seed t' pages
  remove : ∀ {t : FileTree} {pages : List (Nat × String)} (n : Nat),
    Shelved dir seed t pages →
    ∃ t', store.remove t (dir.join ⟨fileName seed n⟩) = (.ok (), t') ∧
        Shelved dir seed t' (pages.filter fun page => page.1 ≠ n) ∨
      ∃ cause, store.remove t (dir.join ⟨fileName seed n⟩) = (.error cause, t') ∧
        Shelved dir seed t' pages

/-- a change of the tree that leaves a directory where it is and with what it holds -/
def Spares (dir : Path) (change : FileTree → FileTree) : Prop :=
  ∀ t f, FileTree.Holds t dir f → (change t).Holds dir f

/-- What an event meets: what others do to the tree before each of its operations, and the causes
for which these fail.  An operation that fails leaves the files as they are. -/
structure Hazard where
  beforeWrite : FileTree → FileTree
  write : Option IoCause
  beforeRemove : FileTree → FileTree
  remove : Option IoCause

def Hazard.storage (z : Hazard) : Storage FileTree where
  write t p text :=
    match z.write with
    | some cause => (.error cause, z.beforeWrite t)
    | none => FileTree.storage.write (z.beforeWrite t) p text
  remove t p :=
    match z.remove with
    | some cause => (.error cause, z.beforeRemove t)
    | none => FileTree.storage.remove (z.beforeRemove t) p

theorem Shelved.spared {dir : Path} {seed : Seed} {t : FileTree} {pages : List (Nat × String)}
    {change : FileTree → FileTree} (h : Shelved dir seed t pages) (hchange : Spares dir change) :
    Shelved dir seed (change t) pages := by
  obtain ⟨f, hf⟩ := h
  exact ⟨f, hchange t f hf.holds, hf.names_eq, hf.file, hf.fits, hf.nodup⟩

theorem honest_hazard {z : Hazard} {dir : Path} (seed : Seed) (hwrite : Spares dir z.beforeWrite)
    (hremove : Spares dir z.beforeRemove) : Honest z.storage dir seed := by
  constructor
  · intro t pages n text h hn
    obtain ⟨f, hf⟩ := h.spared hwrite
    cases hz : z.write with
    | some cause =>
      have hfails : z.storage.write t (dir.join ⟨fileName seed n⟩) text =
          (.error cause, z.beforeWrite t) := by
        rw [Hazard.storage, hz]
      exact ⟨z.beforeWrite t, .inr ⟨cause, hfails, f, hf⟩⟩
    | none =>
      have htree : z.storage.write t (dir.join ⟨fileName seed n⟩) text =
          FileTree.storage.write (z.beforeWrite t) (dir.join ⟨fileName seed n⟩) text := by
        rw [Hazard.storage, hz]
      rw [htree]
      obtain ⟨hr, hshelf⟩ | ⟨⟨cause, hr⟩, ht⟩ := hf.write hn text rfl
      · exact ⟨_, .inl ⟨Prod.ext hr rfl, hshelf⟩⟩
      · exact ⟨_, .inr ⟨cause, Prod.ext hr ht, f, hf⟩⟩
  · intro t pages n h
    obtain ⟨f, hf⟩ := h.spared hremove
    cases hz : z.remove with
    | some cause =>
      have hfails : z.storage.remove t (dir.join ⟨fileName seed n⟩) =
          (.error cause, z.beforeRemove t) := by
        rw [Hazard.storage, hz]
      exact ⟨z.beforeRemove t, .inr ⟨cause, hfails, f, hf⟩⟩
    | none =>
      have htree : z.storage.remove t (dir.join ⟨fileName seed n⟩) =
          FileTree.storage.remove (z.beforeRemove t) (dir.join ⟨fileName seed n⟩) := by
        rw [Hazard.storage, hz]
      rw [htree]
      obtain ⟨hr, hshelf⟩ | ⟨⟨cause, hr⟩, ht⟩ := hf.remove (n := n) rfl
      · exact ⟨_, .inl ⟨Prod.ext hr rfl, hshelf⟩⟩
      · exact ⟨_, .inr ⟨cause, Prod.ext hr ht, f, hf⟩⟩

end PageFuzz.Session
