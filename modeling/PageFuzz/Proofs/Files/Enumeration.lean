import Mathlib
import PageFuzz.Coverage.Scan
import PageFuzz.Proofs.Files.Listing
import PageFuzz.Proofs.Files.NewFile
import PageFuzz.Proofs.Replay.Opening

/-!
# What is listed, and in which order

A directory lists the files that are reached from it through directories alone, each of them once,
and so in the order of the names of their paths: a directory stands where its own name belongs, with
all that is below it, whatever the bytes of the whole paths say.

* `Folder.treeInduction`      induction along a folder and what is below its entries;
* `Folder.Lawful`             in each directory every name is that of one entry;
* `Folder.mem_rows`           the rows of a folder are its entries at any depth;
* `Folder.pairwise_rows`      and are in the order of their names;
* `Path.parts_descend`        the names of a path that goes down, as they are compared;
* `Reaches.descend`           directories below a directory are reached;
* `files_exact`               what a directory lists.
-/

namespace PageFuzz

namespace Folder

/-! ## folders of distinct names -/

/-- a folder is empty, or an entry before a folder; the entry may have a folder below it -/
@[elab_as_elim]
theorem treeInduction {motive : Folder → Prop} (nil : motive nil)
    (cons : ∀ n node rest, (∀ inner, node = .dir inner → motive inner) → motive rest →
      motive (cons n node rest)) (f : Folder) : motive f := by
  induction f with
  | nil => exact nil
  | file n mark content rest ih => exact cons n (.file mark content) rest nofun ih
  | link n target rest ih => exact cons n (.link target) rest nofun ih
  | dir n inner rest ihInner ih =>
    refine cons n (.dir inner) rest (fun g hg => ?_) ih
    cases hg
    exact ihInner

/-- what an entry of a directory can be called -/
def EntryName (n : Name) : Prop := Path.IsFileName n ∧ n.length ≤ Place.longestName

/-- In each directory every name is that of one entry, and what an entry can be called. -/
def Lawful : Folder → Prop
  | nil => True
  | file n _ _ rest => EntryName n ∧ n ∉ rest.names ∧ rest.Lawful
  | link n _ rest => EntryName n ∧ n ∉ rest.names ∧ rest.Lawful
  | dir n inner rest => EntryName n ∧ n ∉ rest.names ∧ inner.Lawful ∧ rest.Lawful

instance (n : Name) : Decidable (EntryName n) :=
  decidable_of_iff ((n ≠ [] ∧ n ≠ [Path.dot] ∧ n ≠ [Path.dot, Path.dot] ∧ Path.slash ∉ n ∧
    (0 : UInt8) ∉ n) ∧ n.length ≤ Place.longestName)
    ⟨fun ⟨⟨h₁, h₂, h₃, h₄, h₅⟩, hshort⟩ => ⟨⟨h₁, h₂, h₃, h₄, h₅⟩, hshort⟩,
      fun ⟨⟨h₁, h₂, h₃, h₄, h₅⟩, hshort⟩ => ⟨⟨h₁, h₂, h₃, h₄, h₅⟩, hshort⟩⟩

instance decidableLawful : (f : Folder) → Decidable f.Lawful
  | nil => isTrue trivial
  | file _ _ _ rest =>
    have := decidableLawful rest
    inferInstanceAs (Decidable (_ ∧ _ ∧ _))
  | link _ _ rest =>
    have := decidableLawful rest
    inferInstanceAs (Decidable (_ ∧ _ ∧ _))
  | dir _ inner rest =>
    have := decidableLawful inner
    have := decidableLawful rest
    inferInstanceAs (Decidable (_ ∧ _ ∧ _ ∧ _))

section
variable {f g rest : Folder} {n x : Name} {node : Node} {ns : List Name}

theorem Lawful.of_cons (h : (cons n node rest).Lawful) : EntryName n ∧ n ∉ rest.names ∧
    (∀ inner, node = .dir inner → inner.Lawful) ∧ rest.Lawful := by
  cases node with
  | file mark content => exact ⟨h.1, h.2.1, nofun, h.2.2⟩
  | link target => exact ⟨h.1, h.2.1, nofun, h.2.2⟩
  | dir inner =>
    refine ⟨h.1, h.2.1, fun g hg => ?_, h.2.2.2⟩
    cases hg
    exact h.2.2.1

theorem Lawful.nodup (h : f.Lawful) : f.names.Nodup := by
  induction f using consInduction with
  | nil => exact List.nodup_nil
  | cons n node rest ih =>
    obtain ⟨-, hfree, -, hrest⟩ := h.of_cons
    rw [names_cons]
    exact List.nodup_cons.mpr ⟨hfree, ih hrest⟩

theorem Lawful.of_find? (h : f.Lawful) (hx : f.find? x = some node) :
    EntryName x ∧ ∀ inner, node = .dir inner → inner.Lawful := by
  induction f using consInduction with
  | nil => cases hx
  | cons n old rest ih =>
    obtain ⟨hn, -, hinner, hrest⟩ := h.of_cons
    rw [find?_cons] at hx
    split at hx
    · next heq =>
      subst heq
      cases hx
      exact ⟨hn, hinner⟩
    · exact ih hrest hx

theorem Lawful.of_at? (h : f.Lawful) (hat : f.at? ns = some g) :
    g.Lawful ∧ ∀ n ∈ ns, EntryName n := by
  induction ns generalizing f with
  | nil =>
    cases hat
    exact ⟨h, fun n hn => absurd hn List.not_mem_nil⟩
  | cons m ms ih =>
    rw [at?] at hat
    split at hat
    · next inner hm =>
      obtain ⟨hname, hinner⟩ := h.of_find? hm
      obtain ⟨hg, hnames⟩ := ih (hinner inner rfl) hat
      refine ⟨hg, fun n hn => ?_⟩
      rcases List.mem_cons.mp hn with rfl | hn
      · exact hname
      · exact hnames n hn
    · cases hat

/-! ## rows -/

theorem map_fst_groups (f : Folder) : f.groups.map (·.1) = f.names := by
  induction f using consInduction with
  | nil => rfl
  | cons n node rest ih => rw [groups_cons, List.map_cons, ih, names_cons]

/-- Where every name is that of one entry, the groups are the names with what they stand for. -/
theorem mem_groups (h : f.names.Nodup) {group : Name × List (List Name × Node)} :
    group ∈ f.groups ↔ ∃ node, f.find? group.1 = some node ∧
      group.2 = entryRows group.1 node := by
  obtain ⟨x, rows⟩ := group
  induction f using consInduction with
  | nil =>
    refine ⟨fun hg => absurd hg List.not_mem_nil, ?_⟩
    rintro ⟨node, hnode, -⟩
    cases hnode
  | cons n node rest ih =>
    rw [names_cons] at h
    obtain ⟨hfree, hrest⟩ := List.nodup_cons.mp h
    rw [groups_cons, List.mem_cons, ih hrest, find?_cons]
    by_cases hn : n = x
    · subst hn
      have hnone : rest.find? n = none := find?_eq_none.mpr hfree
      rw [if_pos rfl, hnone]
      constructor
      · rintro (heq | ⟨_, hnode, -⟩)
        · cases heq
          exact ⟨node, rfl, rfl⟩
        · cases hnode
      · rintro ⟨_, hnode, hrows⟩
        cases hnode
        exact .inl (congrArg (n, ·) hrows)
    · rw [if_neg hn]
      constructor
      · rintro (heq | hother)
        · exact absurd (Prod.mk.inj heq).1.symm hn
        · exact hother
      · exact .inr

theorem mem_rows_iff (h : f.names.Nodup) {r : List Name × Node} :
    r ∈ f.rows ↔ ∃ n node, f.find? n = some node ∧ r ∈ entryRows n node := by
  unfold rows inOrder
  rw [List.mem_flatMap]
  constructor
  · rintro ⟨group, hgroup, hr⟩
    obtain ⟨node, hnode, hrows⟩ := (mem_groups h).mp (List.mem_mergeSort.mp hgroup)
    exact ⟨group.1, node, hnode, hrows ▸ hr⟩
  · rintro ⟨n, node, hnode, hr⟩
    exact ⟨(n, entryRows n node),
      List.mem_mergeSort.mpr ((mem_groups h).mpr ⟨node, hnode, rfl⟩), hr⟩

theorem mem_entryRows {r : List Name × Node} : r ∈ entryRows n node ↔
    r = ([n], node) ∨ ∃ inner below, node = .dir inner ∧ (below, r.2) ∈ inner.rows ∧
      r.1 = n :: below := by
  obtain ⟨names, entry⟩ := r
  cases node with
  | file mark content => simp [entryRows]
  | link target => simp [entryRows]
  | dir inner =>
    rw [entryRows, List.mem_cons, List.mem_map]
    constructor
    · rintro (heq | ⟨⟨below, entry'⟩, hbelow, heq⟩)
      · exact .inl heq
      · cases heq
        exact .inr ⟨inner, below, rfl, hbelow, rfl⟩
    · rintro (heq | ⟨_, below, hnode, hbelow, hnames⟩)
      · exact .inl heq
      · cases hnode
        exact .inr ⟨(below, entry), hbelow, congrArg (·, entry) hnames.symm⟩

/-- **The rows of a folder are its entries at any depth.** -/
theorem mem_rows (h : f.Lawful) : (ns ++ [x], node) ∈ f.rows ↔
    ∃ g, f.at? ns = some g ∧ g.find? x = some node := by
  induction ns generalizing f with
  | nil =>
    rw [mem_rows_iff h.nodup, List.nil_append]
    constructor
    · rintro ⟨n, other, hother, hr⟩
      rcases mem_entryRows.mp hr with heq | ⟨inner, below, rfl, hbelow, hnames⟩
      · cases heq
        exact ⟨f, rfl, hother⟩
      · obtain rfl : below = [] := (List.cons.inj hnames).2.symm
        exact absurd rfl (names_of_mem_rows hbelow)
    · rintro ⟨g, hg, hx⟩
      cases hg
      exact ⟨x, node, hx, mem_entryRows.mpr (.inl rfl)⟩
  | cons m ms ih =>
    rw [mem_rows_iff h.nodup, List.cons_append]
    constructor
    · rintro ⟨n, other, hother, hr⟩
      rcases mem_entryRows.mp hr with heq | ⟨inner, below, rfl, hbelow, hnames⟩
      · exact absurd (List.cons.inj (Prod.mk.inj heq).1).2 (by simp)
      · obtain ⟨rfl, rfl⟩ := List.cons.inj hnames
        rw [at?, hother]
        exact (ih ((h.of_find? hother).2 inner rfl)).mp hbelow
    · rintro ⟨g, hg, hx⟩
      rw [at?] at hg
      split at hg
      · next inner hm =>
        refine ⟨m, .dir inner, hm, mem_entryRows.mpr (.inr ⟨inner, ms ++ [x], rfl, ?_, rfl⟩)⟩
        exact (ih ((h.of_find? hm).2 inner rfl)).mpr ⟨g, hg, hx⟩
      · cases hg

/-! ## the order of rows -/

/-- Groups of distinct names, in the order of these, are in order if each of them is, and if of two
groups all that is in the one comes before what is in the other. -/
theorem pairwise_inOrder {α : Type} {r : α → α → Prop} {groups : List (Name × List α)}
    (hnodup : (groups.map (·.1)).Nodup) (hwithin : ∀ g ∈ groups, g.2.Pairwise r)
    (hacross : ∀ g ∈ groups, ∀ h ∈ groups, g.1 < h.1 → ∀ a ∈ g.2, ∀ b ∈ h.2, r a b) :
    (inOrder groups).Pairwise r := by
  have hperm := List.mergeSort_perm groups fun a b => decide (a.1 ≤ b.1)
  have hdistinct : (groups.mergeSort fun a b => decide (a.1 ≤ b.1)).Pairwise
      fun a b => a.1 ≠ b.1 := by
    have hsorted := (hperm.map (·.1)).nodup_iff.mpr hnodup
    rwa [List.nodup_iff_pairwise_ne, List.pairwise_map] at hsorted
  have hordered : (groups.mergeSort fun a b => decide (a.1 ≤ b.1)).Pairwise
      fun a b => a.1 ≤ b.1 := by
    have hsorted := List.pairwise_mergeSort byName_trans byName_total groups
    exact hsorted.imp of_decide_eq_true
  refine List.pairwise_flatMap.mpr ⟨fun g hg => hwithin g (List.mem_mergeSort.mp hg), ?_⟩
  refine (hordered.and hdistinct).imp_of_mem fun {g h} hg hh ⟨hle, hne⟩ => ?_
  exact hacross g (List.mem_mergeSort.mp hg) h (List.mem_mergeSort.mp hh)
    ((List.le_iff_lt_or_eq.mp hle).resolve_right hne)

/-- All rows of a group begin with its name. -/
theorem head_of_mem_groups {group : Name × List (List Name × Node)} (hg : group ∈ f.groups)
    {r : List Name × Node} (hr : r ∈ group.2) : ∃ below, r.1 = group.1 :: below := by
  induction f using consInduction with
  | nil => cases hg
  | cons n node rest ih =>
    rw [groups_cons] at hg
    rcases List.mem_cons.mp hg with rfl | hrest
    · rcases mem_entryRows.mp hr with rfl | ⟨_, below, -, -, hnames⟩
      · exact ⟨[], rfl⟩
      · exact ⟨below, hnames⟩
    · exact ih hrest

/-- **The rows of a folder are in the order of their names**, which are compared one by one. -/
theorem pairwise_rows (h : f.Lawful) : f.rows.Pairwise fun r s => r.1 < s.1 := by
  -- it is enough that each group is in order, and that is shown along the tree
  have hgroups : ∀ {f : Folder}, f.Lawful →
      (∀ group ∈ f.groups, group.2.Pairwise fun r s => r.1 < s.1) →
      f.rows.Pairwise fun r s => r.1 < s.1 := by
    intro f hf hwithin
    refine pairwise_inOrder ?_ hwithin fun g hg h hh hlt r hr s hs => ?_
    · rw [map_fst_groups]
      exact hf.nodup
    · obtain ⟨below, hr⟩ := head_of_mem_groups hg hr
      obtain ⟨below', hs⟩ := head_of_mem_groups hh hs
      rw [hr, hs]
      exact List.cons_lt_cons_iff.mpr (.inl hlt)
  refine hgroups h ?_
  induction f using treeInduction with
  | nil => exact fun group hg => absurd hg List.not_mem_nil
  | cons n node rest ihInner ih =>
    obtain ⟨-, -, hinner, hrest⟩ := h.of_cons
    rw [groups_cons]
    intro group hg
    rcases List.mem_cons.mp hg with rfl | hg
    · cases node with
      | file mark content => exact List.pairwise_singleton _ _
      | link target => exact List.pairwise_singleton _ _
      | dir inner =>
        have hbelow := hgroups (hinner inner rfl) (ihInner inner rfl (hinner inner rfl))
        refine List.pairwise_cons.mpr ⟨fun r hr => ?_, List.pairwise_map.mpr ?_⟩
        · obtain ⟨s, hs, rfl⟩ := List.mem_map.mp hr
          obtain ⟨m, ms, hms⟩ := List.exists_cons_of_ne_nil (names_of_mem_rows hs)
          rw [hms]
          exact List.cons_lt_cons_iff.mpr (.inr ⟨rfl, List.nil_lt_cons m ms⟩)
        · exact hbelow.imp fun hlt => List.cons_lt_cons_iff.mpr (.inr ⟨rfl, hlt⟩)
    · exact ih hrest group hg

end

end Folder

/-! ## paths that go down -/

/-- The names of a path that goes down, as they are compared: those of the path, and then those that
it goes down along. -/
theorem Path.parts_descend {p : Path} {ns : List Name} (hp : p.bytes ≠ [])
    (hns : ∀ n ∈ ns, IsFileName n) : (p.descend ns).parts = p.parts ++ ns := by
  obtain ⟨-, habsolute, hnames⟩ := names_descend hp hns
  have hkept : ∀ {ms : List Name}, (∀ m ∈ ms, IsFileName m) → ms.filter (· != [dot]) = ms :=
    fun hms => List.filter_eq_self.mpr fun m hm => bne_iff_ne.mpr (hms m hm).ne_dot
  unfold parts
  rw [hnames, habsolute]
  cases p.names with
  | nil =>
    cases ns with
    | nil => rfl
    | cons n ns =>
      have hn : (n == [dot]) = false := beq_eq_false_iff_ne.mpr (hns n List.mem_cons_self).ne_dot
      rw [List.nil_append]
      dsimp only
      rw [hn, Bool.false_and, if_neg Bool.false_ne_true,
        hkept fun m hm => hns m (List.mem_cons_of_mem n hm)]
  | cons m ms =>
    rw [List.cons_append]
    dsimp only
    rw [List.filter_append, hkept hns]
    split
    · rfl
    · rfl

namespace Place

/-- One trail after another. -/
theorem Trail.append {root : Folder} {links links₁ links₂ : Nat}
    {base base₁ base₂ ns ms : List Name} (h : Trail root links₁ base₁ links base ns)
    (h₂ : Trail root links₂ base₂ links₁ base₁ ms) :
    Trail root links₂ base₂ links base (ns ++ ms) := by
  induction h with
  | done => exact h₂
  | dot _ ih => exact .dot ih
  | up _ ih => exact .up ih
  | into hn hk _ ih => exact .into hn hk ih
  | link hn hk _ ih =>
    rw [List.append_assoc] at ih
    exact .link hn hk ih

end Place

namespace FileTree

section
variable {t : FileTree} {p : Path} {d ns : List Name} {x : Name} {f g : Folder}

theorem Reaches.join (h : t.Reaches p d) (hp : p.bytes ≠ []) (hx : Folder.EntryName x)
    (hdir : t.root.kinds d x = some (some .dir)) : t.Reaches (p.join ⟨x⟩) (d ++ [x]) := by
  obtain ⟨hzero, links, htrail⟩ := h
  obtain ⟨hname, hlong⟩ := hx
  refine ⟨Path.zero_not_mem_join hp hname hzero, links, ?_⟩
  rw [Path.isAbsolute_join hp hname, Path.names_join hp hname]
  exact htrail.append (.into ⟨hname.ne_dot, hname.ne_up, hlong⟩ hdir .done)

/-- The directories below a directory are reached by the paths that go down to them. -/
theorem Reaches.descend (h : t.Reaches p d) (hp : p.bytes ≠ [])
    (hns : ∀ n ∈ ns, Folder.EntryName n) (hg : t.root.at? (d ++ ns) = some g) :
    t.Reaches (p.descend ns) (d ++ ns) := by
  induction ns generalizing p d with
  | nil =>
    rw [List.append_nil]
    exact h
  | cons n ns ih =>
    have hn := hns n List.mem_cons_self
    rw [List.append_cons] at hg ⊢
    have hdir : t.root.kinds d n = some (some .dir) := by
      rw [Folder.at?_append] at hg
      obtain ⟨inner, hinner, -⟩ := Option.bind_eq_some_iff.mp hg
      exact Folder.kinds_eq_dir hinner
    exact ih (h.join hp hn hdir) (Path.join_ne_nil hp hn.1)
      (fun m hm => hns m (List.mem_cons_of_mem n hm)) hg

/-- At an entry that is no link there is a file if the entry is one and its path is not too long. -/
theorem Reaches.isFile_join (h : t.Reaches p d) (hx : Folder.EntryName x) {k : Kind}
    (hk : t.root.kinds d x = some (some k)) (hlink : ∀ target, k ≠ .link target) :
    t.isFile (p.join ⟨x⟩) = true ↔
      k = .file ∧ (p.join ⟨x⟩).bytes.length ≤ Place.longestPath := by
  obtain ⟨hname, hshort⟩ := hx
  obtain ⟨links, hplace⟩ := h.place_join hname
  rw [isFile_iff, hplace .follow]
  by_cases hlong : p.TooLong x
  · have hpath : ¬ (p.join ⟨x⟩).bytes.length ≤ Place.longestPath := by
      rcases hlong with hlong | hlong
      · exact Nat.not_le.mpr hlong
      · exact absurd hshort (Nat.not_le.mpr hlong)
    rw [if_pos hlong]
    constructor
    · rintro ⟨b, n, hb, -⟩
      cases hb
    · exact fun hfits => absurd hfits.2 hpath
  · have hpath : (p.join ⟨x⟩).bytes.length ≤ Place.longestPath :=
      Nat.not_lt.mp fun hlt => hlong (.inl hlt)
    rw [if_neg hlong, Place.walk_plain ⟨hname.ne_dot, hname.ne_up, hshort⟩, hk]
    cases k with
    | link target => exact absurd rfl (hlink target)
    | file => exact ⟨fun _ => ⟨rfl, hpath⟩, fun _ => ⟨d, x, rfl, hk⟩⟩
    | dir =>
      constructor
      · rintro ⟨b, n, hb, hfile⟩
        cases hb
        rw [hk] at hfile
        cases hfile
      · rintro ⟨hfile, -⟩
        cases hfile

/-- Where a directory is gone it holds nothing. -/
theorem at?_of_folder {node : Node} (hg : (t.folder d).at? ns = some g)
    (hx : g.find? x = some node) : t.root.at? (d ++ ns) = some g := by
  unfold folder at hg
  rw [Folder.at?_append]
  cases hd : t.root.at? d with
  | some f =>
    rw [hd] at hg
    exact hg
  | none =>
    rw [hd, Option.getD_none] at hg
    cases ns with
    | nil =>
      cases hg
      cases hx
    | cons n ns => cases hg

end

/-! ## the list -/

section
variable {t : FileTree} {dir : Path} {f : Folder}

/-- The directory is at `d` in the tree, and its path is one that can go down. -/
theorem reaches_of_folder? (hdir : t.folder? dir = some f) :
    dir.bytes ≠ [] ∧ ∃ d, t.Reaches dir d ∧ t.folder d = f := by
  have hisDir : t.isDir dir = true := by
    rw [isDir, hdir]
    rfl
  obtain ⟨d, hreach⟩ := reaches_of_isDir hisDir
  have hfolder := hreach.folder?_eq hisDir
  rw [hdir] at hfolder
  exact ⟨(short_of_isDir hisDir).1, d, hreach, (Option.some.inj hfolder).symm⟩

/-- An entry at any depth, seen by its path. -/
theorem isFile_of_entry (hdir : t.folder? dir = some f) (hf : f.Lawful) {ns : List Name} {x : Name}
    {g : Folder} {node : Node} (hg : f.at? ns = some g) (hx : g.find? x = some node)
    (hlink : ∀ target, node.kind ≠ .link target) : t.isFile (dir.descend (ns ++ [x])) = true ↔
      node.kind = .file ∧ (dir.descend (ns ++ [x])).bytes.length ≤ Place.longestPath := by
  obtain ⟨hne, d, hreach, rfl⟩ := reaches_of_folder? hdir
  obtain ⟨hlawful, hnames⟩ := hf.of_at? hg
  have hat := at?_of_folder hg hx
  have hk : t.root.kinds (d ++ ns) x = some (some node.kind) := by
    rw [Folder.kinds_of_at hat, hx]
    rfl
  rw [Path.descend_append]
  exact (hreach.descend hne hnames hat).isFile_join (hlawful.of_find? hx).1 hk hlink

theorem mem_files_iff (hdir : t.folder? dir = some f) (hf : f.Lawful) {p : Path} :
    p ∈ t.files dir ↔ t.isFile p = true ∧ ∃ ns x g node, f.at? ns = some g ∧
      g.find? x = some node ∧ node.kind ≠ .dir ∧ p = dir.descend (ns ++ [x]) := by
  rw [files, hdir, Option.getD_some, List.mem_filter, List.mem_map, and_comm]
  refine and_congr_right fun hfile => ⟨?_, ?_⟩
  · rintro ⟨⟨names, node⟩, hr, rfl⟩
    rcases List.eq_nil_or_concat' names with rfl | ⟨ns, x, rfl⟩
    · exact absurd rfl (Folder.names_of_mem_rows hr)
    · obtain ⟨g, hg, hx⟩ := (Folder.mem_rows hf).mp hr
      refine ⟨ns, x, g, node, hg, hx, fun hkind => ?_, rfl⟩
      -- the path of a directory leads to no file
      have hlink : ∀ target, node.kind ≠ .link target := hkind ▸ nofun
      have hother := ((isFile_of_entry hdir hf hg hx hlink).mp hfile).1
      rw [hkind] at hother
      cases hother
  · rintro ⟨ns, x, g, node, hg, hx, -, rfl⟩
    exact ⟨(ns ++ [x], node), (Folder.mem_rows hf).mpr ⟨g, hg, hx⟩, rfl⟩

/-- The list is in the order of the names of its paths. -/
theorem pairwise_files (hdir : t.folder? dir = some f) (hf : f.Lawful) :
    (t.files dir).Pairwise fun p q => p.isAbsolute = q.isAbsolute ∧ p.parts < q.parts := by
  obtain ⟨hne, -⟩ := reaches_of_folder? hdir
  have hnames : ∀ r ∈ f.rows, ∀ n ∈ r.1, Path.IsFileName n := by
    rintro ⟨names, node⟩ hr n hn
    rcases List.eq_nil_or_concat' names with rfl | ⟨ns, x, rfl⟩
    · cases hn
    · obtain ⟨g, hg, hx⟩ := (Folder.mem_rows hf).mp hr
      obtain ⟨hlawful, hns⟩ := hf.of_at? hg
      rcases List.mem_append.mp hn with hn | hn
      · exact (hns n hn).1
      · exact List.mem_singleton.mp hn ▸ (hlawful.of_find? hx).1.1
  rw [files, hdir, Option.getD_some]
  refine List.Pairwise.filter _ (List.pairwise_map.mpr ?_)
  refine (Folder.pairwise_rows hf).imp_of_mem fun {r s} hr hs hlt => ⟨?_, ?_⟩
  · rw [(Path.names_descend hne (hnames r hr)).2.1, (Path.names_descend hne (hnames s hs)).2.1]
  · rw [Path.parts_descend hne (hnames r hr), Path.parts_descend hne (hnames s hs)]
    exact List.append_left_lt hlt

end

/-- **What a directory lists.**  Its names are distinct, and so are those of all directories below
it.  Then it lists the paths that lead to a file and are those of entries, files or links, that are
reached through directories alone, and no others; of the files among the entries it lists all
whose paths are not too long.  No path is listed twice, and each path comes after those with
smaller names, which are compared one by one.  A harness serves this list, and its pages are what is
scanned. -/
theorem files_exact {t : FileTree} {dir : Path} {f : Folder} (hdir : t.folder? dir = some f)
    (hf : f.Lawful) :
    (∀ p, p ∈ t.files dir ↔ t.isFile p = true ∧ ∃ ns x g node, f.at? ns = some g ∧
        g.find? x = some node ∧ node.kind ≠ .dir ∧ p = dir.descend (ns ++ [x])) ∧
      (∀ ns x g mark content, f.at? ns = some g → g.find? x = some (.file mark content) →
        (dir.descend (ns ++ [x]) ∈ t.files dir ↔
          (dir.descend (ns ++ [x])).bytes.length ≤ Place.longestPath)) ∧
      (t.files dir).Nodup ∧
      (t.files dir).Pairwise (fun p q => p.isAbsolute = q.isAbsolute ∧ p.parts < q.parts) ∧
      (∀ logPath resume h t', Replay.Harness.openAt dir logPath resume t = (.ok h, t') →
        h.files = t.files dir) ∧
      Coverage.pagesIn t dir = .ok ((t.files dir).filter Coverage.isPage) := by
  have hordered := pairwise_files hdir hf
  refine ⟨fun p => mem_files_iff hdir hf, fun ns x g mark content hg hx => ?_, ?_, hordered, ?_, ?_⟩
  · have hentry := isFile_of_entry hdir hf hg hx nofun
    rw [mem_files_iff hdir hf, hentry]
    constructor
    · exact fun hlisted => hlisted.1.2
    · exact fun hshort => ⟨⟨rfl, hshort⟩, ns, x, g, _, hg, hx, nofun, rfl⟩
  · refine List.nodup_iff_pairwise_ne.mpr (hordered.imp fun {p q} hlt he => ?_)
    rw [he] at hlt
    exact List.lt_irrefl q.parts hlt.2
  · intro logPath resume h t' hopen
    cases resume with
    | false => exact (Replay.openAt_fresh hopen).2.1
    | true => exact (Replay.openAt_resumed hopen).2.1
  · have hisDir : t.isDir dir = true := by
      rw [isDir, hdir]
      rfl
    rw [Coverage.pagesIn, if_pos hisDir]

/-- What is below a directory comes where the directory's own name belongs, which is not the order of
the bytes of whole paths; a link to a file is listed, and no other link. -/
theorem files_exact_of_links :
    let inner : Folder := .file [120] 0 .empty (.link [117] ⟨[46, 46, 47, 97, 46, 104]⟩
      (.link [115] ⟨[115]⟩ .nil))
    let f : Folder := .file [97, 46, 104] 1 .empty (.link [100] ⟨[97]⟩ (.dir [97] inner .nil))
    let t : FileTree := ⟨.dir [99] f .nil, [], 2⟩
    let listed : List Path := [⟨[99, 47, 97, 47, 117]⟩, ⟨[99, 47, 97, 47, 120]⟩,
      ⟨[99, 47, 97, 46, 104]⟩]
    t.folder? ⟨[99]⟩ = some f ∧ f.Lawful ∧ t.files ⟨[99]⟩ = listed ∧
      listed.Pairwise (fun p q => p.parts < q.parts) ∧
      ¬ listed.Pairwise (fun p q => p.bytes < q.bytes) := by
  intro inner f t listed
  have hdir : t.folder? ⟨[99]⟩ = some f := by cbv
  have hlawful : f.Lawful := by decide
  have hfiles : t.files ⟨[99]⟩ = listed := by cbv
  obtain ⟨-, -, -, hordered, -⟩ := files_exact hdir hlawful
  rw [hfiles] at hordered
  exact ⟨hdir, hlawful, hfiles, hordered.imp fun hlt => hlt.2, by decide⟩

end FileTree

end PageFuzz
