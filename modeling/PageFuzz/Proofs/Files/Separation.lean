import PageFuzz.Files.Storage
import PageFuzz.Proofs.Files.Frames
import PageFuzz.Proofs.Files.Trails

/-!
# Changes that stay in one place

A session changes the files of its own directory and nothing else.  Here that is a relation between
two trees which holds from before a change to after it, and from before a run of them to after it.

* `Folder.node?`       what stands at a name, without what is below it;
* `Folder.Alias`       two names of one file, or one name twice;
* `OnlyBelow`           one tree is another after changes at a location and below it;
* `Site.apart`          a directory beside that location is where it was, with what it held;
* `MadeBy`              one tree is another with some directories made;
* `madeBy_makeDirs`     the directories made are those of the path and of its ancestors;
* `Site.write`          writing a new file in a directory of files, for all that it holds but marks;
* `Site.remove`         the same of removing one.
-/

namespace PageFuzz

/-- a node without what is below it -/
def Node.shallow : Node → Node
  | .dir _ => .dir .nil
  | node => node

namespace Folder

/-- what stands at a name of the directory that is reached by `b`, without what is below it -/
def node? (root : Folder) (b : List Name) (n : Name) : Option Node :=
  ((root.at? b).bind (find? n)).map Node.shallow

theorem node?_of_at {root g : Folder} {b : List Name} (hg : root.at? b = some g) (n : Name) :
    root.node? b n = (g.find? n).map Node.shallow := by
  rw [node?, hg]
  rfl

theorem node?_of_none {root : Folder} {b : List Name} (hg : root.at? b = none) (n : Name) :
    root.node? b n = none := by
  rw [node?, hg]
  rfl

theorem node?_eq_none_iff {root g : Folder} {b : List Name} {n : Name} (hg : root.at? b = some g) :
    root.node? b n = none ↔ g.find? n = none := by
  rw [node?_of_at hg, Option.map_eq_none_iff]

theorem node?_of_file {root g : Folder} {b : List Name} {n : Name} {mark : Nat}
    {content : ByteArray} (hg : root.at? b = some g)
    (hfile : g.find? n = some (.file mark content)) :
    root.node? b n = some (.file mark content) := by
  rw [node?_of_at hg, hfile]
  rfl

theorem node?_eq_dir {root f : Folder} {b : List Name} {n : Name}
    (h : root.at? (b ++ [n]) = some f) : root.node? b n = some (.dir .nil) := by
  obtain ⟨g, hg, hn⟩ := find?_eq_dir h
  rw [node?_of_at hg, hn]
  rfl

/-- the mark of the file that stands at a name -/
def markAt (root : Folder) (b : List Name) (n : Name) : Option Nat :=
  match root.node? b n with
  | some (.file mark _) => some mark
  | _ => none

theorem markAt_eq_some {root : Folder} {b : List Name} {n : Name} {mark : Nat} :
    root.markAt b n = some mark ↔ ∃ content, root.node? b n = some (.file mark content) := by
  unfold markAt
  split
  · next m content h => simp [h]
  · next hnone =>
    constructor
    · nofun
    · rintro ⟨content, h⟩
      exact absurd h (hnone mark content)

/-- The second entry is the first one, or another name of the same file. -/
def Alias (root : Folder) (d : List Name) (x : Name) (b : List Name) (n : Name) : Prop :=
  (b, n) = (d, x) ∨ ∃ mark, root.markAt d x = some mark ∧ root.markAt b n = some mark

/-- A directory that a walk goes through is there. -/
theorem at?_of_kinds {root : Folder} {b : List Name} {n : Name}
    (h : root.kinds b n = some (some .dir)) : ∃ f, root.at? (b ++ [n]) = some f := by
  obtain ⟨g, hg, hfound⟩ := Option.map_eq_some_iff.mp h
  obtain ⟨node, hnode, hkind⟩ := Option.map_eq_some_iff.mp hfound
  cases node with
  | file mark content => cases hkind
  | link target => cases hkind
  | dir inner =>
    refine ⟨inner, ?_⟩
    rw [at?_append, hg]
    show g.at? [n] = some inner
    rw [at?, hnode]
    rfl

theorem Passable.refl (root : Folder) : root.Passable root := fun _ _ _ h _ => h

theorem Passable.trans {a b c : Folder} (hab : a.Passable b) (hbc : b.Passable c) : a.Passable c :=
  fun base n k h hk => hbc base n k (hab base n k h hk) hk

/-- The directory at a way that a walk can go is there still. -/
theorem Passable.at? {root r g : Folder} (hpass : root.Passable r) {base : List Name}
    (hg : root.at? base = some g) : ∃ g', r.at? base = some g' := by
  rcases List.eq_nil_or_concat base with rfl | ⟨front, last, rfl⟩
  · exact ⟨r, rfl⟩
  · rw [List.concat_eq_append] at hg ⊢
    exact at?_of_kinds (hpass front last .dir (kinds_eq_dir hg) nofun)

end Folder

namespace FileTree

/-! ## changes below a location -/

/-- `t'` is `t` after changes at a location and below it, by which no directory and no link is
lost. -/
structure OnlyBelow (loc : List Name) (t t' : FileTree) : Prop where
  here_eq : t'.here = t.here
  passable : t.root.Passable t'.root
  at_eq : ∀ l, ¬ l <+: loc → ¬ loc <+: l → t'.root.at? l = t.root.at? l
  node_eq : ∀ b n, ¬ loc <+: b ++ [n] → t'.root.node? b n = t.root.node? b n

namespace OnlyBelow

variable {loc : List Name} {t t' : FileTree}

theorem refl (loc : List Name) (t : FileTree) : OnlyBelow loc t t :=
  ⟨rfl, .refl t.root, fun _ _ _ => rfl, fun _ _ _ => rfl⟩

theorem trans {t'' : FileTree} (h : OnlyBelow loc t t') (h' : OnlyBelow loc t' t'') :
    OnlyBelow loc t t'' where
  here_eq := h'.here_eq.trans h.here_eq
  passable := h.passable.trans h'.passable
  at_eq l habove hbelow := (h'.at_eq l habove hbelow).trans (h.at_eq l habove hbelow)
  node_eq b n hn := (h'.node_eq b n hn).trans (h.node_eq b n hn)

/-- A change at one name, a file or free, that is at the location or below it. -/
theorem of_within {change : Folder → Folder} {x : Name} {base : List Name} {g : Folder}
    (hchange : ∀ f y, y ≠ x → (change f).find? y = f.find? y) (hg : t.root.at? base = some g)
    (hfile : ∀ node, g.find? x = some node → node.kind = .file) (hloc : loc <+: base ++ [x])
    (hroot : t'.root = t.root.within change base) (hhere : t'.here = t.here) :
    OnlyBelow loc t t' where
  here_eq := hhere
  passable := hroot ▸ Folder.passable_within hchange hg hfile
  at_eq l habove hbelow := by
    rw [hroot]
    refine Folder.at?_within_apart hchange (fun hl => ?_) (fun hl => hbelow (hloc.trans hl)) t.root
    -- two beginnings of one list of names: one of them begins the other
    have hl' : l <+: base ++ [x] := hl.trans (List.prefix_append base [x])
    rcases List.prefix_or_prefix_of_prefix hl' hloc with h | h
    · exact habove h
    · exact hbelow h
  node_eq b n hn := by
    have hne : (b, n) ≠ (base, x) := by
      intro heq
      obtain ⟨rfl, rfl⟩ := Prod.mk.inj heq
      exact hn hloc
    have hbelow : ¬ base ++ [x] <+: b := fun h =>
      hn (hloc.trans (h.trans (List.prefix_append b [n])))
    rw [hroot]
    cases hb : t.root.at? b with
    | none =>
      have hnone : (t.root.within change base).at? b = none := by
        by_cases habove : b <+: base
        · obtain ⟨rest, rfl⟩ := habove
          rw [Folder.at?_within_above, hb]
          rfl
        · rw [Folder.at?_within_apart hchange habove hbelow, hb]
      rw [Folder.node?_of_none hb, Folder.node?_of_none hnone]
    | some f =>
      obtain ⟨f', hf', hentry⟩ := Folder.find?_within_of_ne hchange hb hne hbelow
      rw [Folder.node?_of_at hb, Folder.node?_of_at hf']
      rcases hentry with hsame | ⟨inner, inner', hold, hnew⟩
      · rw [hsame]
      · rw [hold, hnew]
        rfl

end OnlyBelow

section
variable {t t' : FileTree} {p : Path} {base : List Name} {name : Name} {f : Folder}

/-- A directory is where it was in a tree with the same directories and links. -/
theorem Site.mono (h : Site t p base name f) (hpass : t.root.Passable t'.root)
    (hhere : t'.here = t.here) {f' : Folder} (hat : t'.root.at? (base ++ [name]) = some f') :
    Site t' p base name f' where
  bytes_ne_nil := h.bytes_ne_nil
  zero_not_mem := h.zero_not_mem
  short := h.short
  plain := h.plain
  route := by
    obtain ⟨links, asDir, hroute⟩ := h.route
    refine ⟨links, asDir, ?_⟩
    rw [hhere]
    exact hroute.mono hpass
  at_eq := hat

theorem Site.there (h : Site t p base name f) (hpass : t.root.Passable t'.root)
    (hhere : t'.here = t.here) : ∃ f', Site t' p base name f' := by
  obtain ⟨f', hf'⟩ := hpass.at? h.at_eq
  exact ⟨f', h.mono hpass hhere hf'⟩

/-- A directory beside the changes is where it was, with what it held. -/
theorem Site.apart (h : Site t p base name f) {other : Name} (hne : name ≠ other)
    (hchange : OnlyBelow (base ++ [other]) t t') : Site t' p base name f := by
  have hapart : ∀ {a b : Name}, a ≠ b → ¬ base ++ [a] <+: base ++ [b] := by
    intro a b hab hprefix
    have hsame := (List.prefix_append_right_inj base).mp hprefix
    exact hab (List.cons_prefix_cons.mp hsame).1
  refine h.mono hchange.passable hchange.here_eq ?_
  rw [hchange.at_eq _ (hapart hne) (hapart hne.symm), h.at_eq]

end

/-! ## directories that are made -/

/-- `t'` is `t` with directories made for some of the paths. -/
structure MadeBy (ps : List Path) (t t' : FileTree) : Prop where
  here_eq : t'.here = t.here
  passable : t.root.Passable t'.root
  node : ∀ b n, t'.root.node? b n = t.root.node? b n ∨
    t.root.node? b n = none ∧ t'.root.node? b n = some (.dir .nil) ∧
      ∃ p ∈ ps, ∃ f, Site t' p b n f

namespace MadeBy

variable {t t' : FileTree} {ps : List Path}

theorem refl (ps : List Path) (t : FileTree) : MadeBy ps t t :=
  ⟨rfl, .refl t.root, fun _ _ => .inl rfl⟩

theorem mono {qs : List Path} (h : MadeBy ps t t') (hsub : ps ⊆ qs) : MadeBy qs t t' := by
  refine ⟨h.here_eq, h.passable, fun b n => (h.node b n).imp_right ?_⟩
  rintro ⟨hfree, hdir, p, hp, hsite⟩
  exact ⟨hfree, hdir, p, hsub hp, hsite⟩

theorem trans {t'' : FileTree} (h : MadeBy ps t t') (h' : MadeBy ps t' t'') : MadeBy ps t t'' := by
  refine ⟨h'.here_eq.trans h.here_eq, h.passable.trans h'.passable, fun b n => ?_⟩
  rcases h'.node b n with hsame | ⟨hfree, hdir, hmade⟩
  · rcases h.node b n with hbefore | ⟨hfree, hdir, p, hp, f, hsite⟩
    · exact .inl (hsame.trans hbefore)
    · obtain ⟨f', hsite'⟩ := hsite.there h'.passable h'.here_eq
      exact .inr ⟨hfree, hsame.trans hdir, p, hp, f', hsite'⟩
  · rcases h.node b n with hbefore | ⟨-, hbefore, -⟩
    · exact .inr ⟨hbefore ▸ hfree, hdir, hmade⟩
    · rw [hfree] at hbefore
      cases hbefore

end MadeBy

section
variable {t t' : FileTree} {p : Path}

/-- what a new directory changes -/
theorem madeBy_makeDir (h : t.makeDir p = .ok t') : MadeBy [p] t t' := by
  obtain ⟨base, name, g, hg, hfree, rfl, hsite⟩ := site_makeDir h
  have hfile : ∀ node, g.find? name = some node → node.kind = .file := fun _ hnode =>
    Folder.kind_of_free hfree hnode
  have hchange : OnlyBelow (base ++ [name]) t (t.put base name (.dir .nil)) :=
    .of_within (fun f y hy => Folder.find?_put_of_ne (Ne.symm hy) _ f) hg hfile List.prefix_rfl
      rfl rfl
  refine ⟨hchange.here_eq, hchange.passable, fun b n => ?_⟩
  by_cases hloc : base ++ [name] <+: b ++ [n]
  · rcases List.prefix_concat_iff.mp hloc with heq | ⟨rest, rfl⟩
    · obtain ⟨rfl, hname⟩ := List.append_inj' heq rfl
      obtain rfl := List.singleton_inj.mp hname
      exact .inr ⟨(Folder.node?_eq_none_iff hg).mpr hfree, Folder.node?_eq_dir hsite.at_eq, p,
        List.mem_singleton_self p, _, hsite⟩
    · -- below the new directory nothing was and nothing is
      have hbefore : t.root.at? (base ++ [name] ++ rest) = none := by
        rw [Folder.at?_append, Folder.at?_append, hg]
        show ((g.at? [name]).bind fun f => f.at? rest) = none
        rw [Folder.at?, hfree]
        rfl
      have hafter : (t.put base name (.dir .nil)).root.node? (base ++ [name] ++ rest) n = none := by
        rw [Folder.node?, Folder.at?_append, hsite.at_eq]
        cases rest <;> rfl
      rw [Folder.node?_of_none hbefore]
      exact .inl hafter
  · exact .inl (hchange.node_eq b n hloc)

theorem madeBy_ensureDir {r : Except IoCause Unit} (h : t.ensureDir p = (r, t')) :
    MadeBy [p] t t' := by
  unfold ensureDir at h
  split at h
  · next hmade =>
    cases h
    exact madeBy_makeDir hmade
  · cases h
    exact .refl [p] t

theorem madeBy_makeDirsUp {ps : List Path} {r : Except IoCause Unit}
    (h : t.makeDirsUp ps = (r, t')) : MadeBy ps t t' := by
  induction ps generalizing t t' r with
  | nil =>
    cases h
    exact .refl [] t
  | cons p above ih =>
    have hfirst : ∀ {a b : FileTree}, MadeBy [p] a b → MadeBy (p :: above) a b := fun hm =>
      hm.mono (List.cons_subset_cons p (List.nil_subset above))
    rw [makeDirsUp] at h
    split at h
    · cases h
      exact .refl _ t
    · split at h
      · split at h
        · next cause next habove =>
          cases h
          exact (ih habove).mono (List.subset_cons_self p above)
        · next next habove =>
          have hrest := (ih habove).mono (List.subset_cons_self p above)
          exact hrest.trans (hfirst (madeBy_ensureDir h))
      · exact hfirst (madeBy_ensureDir h)

/-- Making a directory makes it and those above it that are missing, and changes nothing else. -/
theorem madeBy_makeDirs {r : Except IoCause Unit} (h : t.makeDirs p = (r, t')) :
    MadeBy (p :: p.ancestors) t t' := madeBy_makeDirsUp h

end

end FileTree

/-! ## files without their marks -/

namespace Folder

/-- nothing but files -/
def onlyFiles : Folder → Bool
  | nil => true
  | file _ _ _ rest => rest.onlyFiles
  | link _ _ _ => false
  | dir _ _ _ => false

/-- what a folder holds, whatever the marks of its files -/
def unmarked : Folder → Folder
  | nil => nil
  | file n _ content rest => file n 0 content rest.unmarked
  | link n target rest => link n target rest.unmarked
  | dir n inner rest => dir n inner.unmarked rest.unmarked

variable {f : Folder} {x : Name}

theorem kind_of_onlyFiles (h : f.onlyFiles = true) {node : Node} (hnode : f.find? x = some node) :
    node.kind = .file := by
  induction f with
  | nil => cases hnode
  | file n mark content rest ih =>
    rw [find?] at hnode
    split at hnode
    · cases hnode
      rfl
    · exact ih h hnode
  | link n target rest => cases h
  | dir n inner rest => cases h

theorem onlyFiles_put (h : f.onlyFiles = true) (mark : Nat) (content : ByteArray) :
    (f.put x (.file mark content)).onlyFiles = true := by
  induction f with
  | nil => rfl
  | file n m c rest ih =>
    rw [put]
    split
    · exact h
    · exact ih h
  | link n target rest => cases h
  | dir n inner rest => cases h

theorem onlyFiles_erase (h : f.onlyFiles = true) : (f.erase x).onlyFiles = true := by
  induction f with
  | nil => rfl
  | file n m c rest ih =>
    rw [erase]
    split
    · exact h
    · exact ih h
  | link n target rest => cases h
  | dir n inner rest => cases h

theorem unmarked_put (x : Name) (mark : Nat) (content : ByteArray) (f : Folder) :
    (f.put x (.file mark content)).unmarked = f.unmarked.put x (.file 0 content) := by
  induction f with
  | nil => rfl
  | file n m c rest ih =>
    by_cases h : n = x
    · rw [put, if_pos h, unmarked, put, if_pos h]
      rfl
    · rw [put, if_neg h, unmarked, unmarked, put, if_neg h, ih]
  | link n target rest ih =>
    by_cases h : n = x
    · rw [put, if_pos h, unmarked, put, if_pos h]
      rfl
    · rw [put, if_neg h, unmarked, unmarked, put, if_neg h, ih]
  | dir n inner rest _ ih =>
    by_cases h : n = x
    · rw [put, if_pos h, unmarked, put, if_pos h]
      rfl
    · rw [put, if_neg h, unmarked, unmarked, put, if_neg h, ih]

theorem unmarked_erase (x : Name) (f : Folder) : (f.erase x).unmarked = f.unmarked.erase x := by
  induction f with
  | nil => rfl
  | file n m c rest ih =>
    by_cases h : n = x
    · rw [erase, if_pos h, unmarked, erase, if_pos h]
    · rw [erase, if_neg h, unmarked, unmarked, erase, if_neg h, ih]
  | link n target rest ih =>
    by_cases h : n = x
    · rw [erase, if_pos h, unmarked, erase, if_pos h]
    · rw [erase, if_neg h, unmarked, unmarked, erase, if_neg h, ih]
  | dir n inner rest _ ih =>
    by_cases h : n = x
    · rw [erase, if_pos h, unmarked, erase, if_pos h]
    · rw [erase, if_neg h, unmarked, unmarked, erase, if_neg h, ih]

/-- The marks do not matter to which names are taken. -/
theorem names_unmarked (f : Folder) : f.unmarked.names = f.names := by
  induction f with
  | nil => rfl
  | file n m c rest ih => rw [unmarked, names, names, ih]
  | link n target rest ih => rw [unmarked, names, names, ih]
  | dir n inner rest _ ih => rw [unmarked, names, names, ih]

end Folder

namespace FileTree

section
variable {t : FileTree} {p : Path} {base : List Name} {name x : Name} {f : Folder}

/-- Writing a new file in a directory of files puts it there, unless its name or path is too
long. -/
theorem Site.write (h : Site t p base name f) (hf : f.onlyFiles = true) (hx : Path.IsFileName x)
    (hnew : x ∉ f.names) (text : String) :
    ∃ t' f', storage.write t (p.join ⟨x⟩) text =
        (if p.TooLong x then .error .nameTooLong else .ok (), t') ∧
      Site t' p base name f' ∧ f'.onlyFiles = true ∧
      f'.unmarked = (if p.TooLong x then f.unmarked
        else f.unmarked.put x (.file 0 text.toByteArray)) ∧
      OnlyBelow (base ++ [name]) t t' := by
  have hfree : f.find? x = none := Folder.find?_eq_none.mpr hnew
  have hfile : ∀ node, f.find? x = some node → node.kind = .file := fun _ hnode =>
    Folder.kind_of_onlyFiles hf hnode
  have hplace := h.place_join hx hfile .create
  have hstorage : storage.write t (p.join ⟨x⟩) text =
      t.after (t.writeFile (p.join ⟨x⟩) text.toByteArray) := rfl
  rw [hstorage, writeFile, fileSpot, hplace]
  by_cases hlong : p.TooLong x
  · rw [if_pos hlong, if_pos hlong, if_pos hlong]
    exact ⟨t, f, rfl, h, hf, rfl, .refl _ t⟩
  · rw [if_neg hlong, if_neg hlong, if_neg hlong]
    dsimp only
    rw [if_neg Bool.false_ne_true, h.folder_eq, hfree]
    refine ⟨_, f.put x (.file t.nextMark text.toByteArray), rfl, h.put hfile _ _,
      Folder.onlyFiles_put hf _ _, Folder.unmarked_put x _ _ f, ?_⟩
    exact .of_within (fun f y hy => Folder.find?_put_of_ne (Ne.symm hy) _ f) h.at_eq hfile
      (List.prefix_append _ _) rfl rfl

/-- Removing a file from a directory of files takes it away, if it is there. -/
theorem Site.remove (h : Site t p base name f) (hf : f.onlyFiles = true) (hx : Path.IsFileName x) :
    ∃ t' f', storage.remove t (p.join ⟨x⟩) =
        (if p.TooLong x then .error .nameTooLong
          else if x ∈ f.unmarked.names then .ok () else .error .notFound, t') ∧
      Site t' p base name f' ∧ f'.onlyFiles = true ∧
      f'.unmarked = (if p.TooLong x then f.unmarked
        else if x ∈ f.unmarked.names then f.unmarked.erase x else f.unmarked) ∧
      OnlyBelow (base ++ [name]) t t' := by
  have hfile : ∀ node, f.find? x = some node → node.kind = .file := fun _ hnode =>
    Folder.kind_of_onlyFiles hf hnode
  have hplace := h.place_join hx hfile .keep
  have hstorage : storage.remove t (p.join ⟨x⟩) = t.after (t.removeFile (p.join ⟨x⟩)) := rfl
  rw [hstorage, removeFile, hplace, Folder.names_unmarked]
  by_cases hlong : p.TooLong x
  · rw [if_pos hlong, if_pos hlong, if_pos hlong]
    exact ⟨t, f, rfl, h, hf, rfl, .refl _ t⟩
  · rw [if_neg hlong, if_neg hlong, if_neg hlong]
    dsimp only
    rw [h.folder_eq]
    cases hnode : f.find? x with
    | none =>
      have hnot : x ∉ f.names := Folder.find?_eq_none.mp hnode
      rw [if_neg hnot, if_neg hnot]
      exact ⟨t, f, rfl, h, hf, rfl, .refl _ t⟩
    | some node =>
      have hmem := Folder.mem_names_of_find hnode
      have hkind := hfile node hnode
      rw [if_pos hmem, if_pos hmem]
      cases node with
      | file mark content =>
        refine ⟨t.erase (base ++ [name]) x, f.erase x, rfl, h.erase hfile,
          Folder.onlyFiles_erase hf, Folder.unmarked_erase x f, ?_⟩
        exact .of_within (fun g y hy => Folder.find?_erase_of_ne (Ne.symm hy) g) h.at_eq hfile
          (List.prefix_append _ _) rfl rfl
      | link target => cases hkind
      | dir inner => cases hkind

end

end FileTree

end PageFuzz
