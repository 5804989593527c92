import PageFuzz.Proofs.Files.Frames
import PageFuzz.Proofs.Files.Names
import PageFuzz.Proofs.Files.Rows
import PageFuzz.Proofs.Files.Trails

/-!
# A file that is made

A file is made at a free name.  Walks go where they went, up to the word for a failure: a path that
went on from the free name led nowhere, and now leads through a file.  So the paths that lead to a
file are those that did and those of the new one; and a directory lists what it listed, with the
paths below it that lead to the new file.

* `NewFile`            one tree is another with a file at a free name;
* `NewFile.walk_cases` where a walk goes;
* `NewFile.isFile_iff` which paths lead to a file;
* `NewFile.files_eq`   what a directory lists;
* `newFile_openFile`   opening a file makes it.
-/

namespace PageFuzz

namespace Place

/-! ## the end of a walk -/

/-- A walk goes down along names to the last of them, unless a name is too long. -/
theorem walk_down {root g : Folder} {links : Nat} {base ns : List Name} {x : Name}
    (hns : ∀ n ∈ ns ++ [x], Path.IsStep n) (hat : root.at? (base ++ ns) = some g)
    (hfree : g.find? x = none) (ending : Ending) (asDir : Bool) :
    walk root ending links base asDir (ns ++ [x]) = .error .nameTooLong ∨
      walk root ending links base asDir (ns ++ [x]) = .ok (.entry (base ++ ns) x asDir) := by
  induction ns generalizing base with
  | nil =>
    have hx := hns x (List.mem_singleton_self x)
    rw [List.append_nil] at hat ⊢
    rw [List.nil_append]
    by_cases hlong : longestName < x.length
    · exact .inl (walk_of_long hx.ne_dot hx.ne_up hlong ..)
    · right
      rw [walk_plain ⟨hx.ne_dot, hx.ne_up, Nat.not_lt.mp hlong⟩, Folder.kinds, hat,
        Option.map_some, hfree]
      rfl
  | cons n ns ih =>
    have hn := hns n List.mem_cons_self
    have hdir : root.kinds base n = some (some .dir) := by
      rw [← List.singleton_append, ← List.append_assoc, Folder.at?_append] at hat
      obtain ⟨f, hf, -⟩ := Option.bind_eq_some_iff.mp hat
      exact Folder.kinds_eq_dir hf
    have hmore : ¬ (ns ++ [x]).isEmpty = true := by simp
    by_cases hlong : longestName < n.length
    · exact .inl (walk_of_long hn.ne_dot hn.ne_up hlong ..)
    · rw [List.cons_append, walk_plain ⟨hn.ne_dot, hn.ne_up, Nat.not_lt.mp hlong⟩, hdir]
      dsimp only
      rw [if_neg hmore, List.append_cons base n ns]
      rw [List.append_cons base n ns] at hat
      exact ih (fun m hm => hns m (List.mem_cons_of_mem n hm)) hat

/-- The names that a walk ends with are those it began with or names of a path. -/
theorem Route.isStep {root : Folder} {ending : Ending} {links links' : Nat}
    {base base' : List Name} {asDir asDir' : Bool} {ns : List Name} {name : Name}
    (h : Route root ending links' base' asDir' name links base asDir ns) (hname : IsPlain name)
    (hbase : ∀ n ∈ base, Path.IsStep n) (hns : ∀ n ∈ ns, n ≠ [] ∧ Path.slash ∉ n) :
    ∀ n ∈ base' ++ [name], Path.IsStep n := by
  have hstep : ∀ {n : Name}, IsPlain n → (n ≠ [] ∧ Path.slash ∉ n) → Path.IsStep n :=
    fun hn hpart => ⟨hpart.1, hn.1, hn.2.1, hpart.2⟩
  have hconcat : ∀ {b : List Name} {n : Name}, (∀ m ∈ b, Path.IsStep m) → Path.IsStep n →
      ∀ m ∈ b ++ [n], Path.IsStep m := by
    intro b n hb hn m hm
    rcases List.mem_append.mp hm with hm | hm
    · exact hb m hm
    · exact List.mem_singleton.mp hm ▸ hn
  induction h with
  | stop => exact hconcat hbase (hstep hname (hns name List.mem_cons_self))
  | dot _ ih => exact ih hbase fun n hn => hns n (List.mem_cons_of_mem _ hn)
  | up _ ih =>
    exact ih (fun n hn => hbase n ((List.dropLast_sublist _).subset hn))
      fun n hn => hns n (List.mem_cons_of_mem _ hn)
  | into hn hk _ _ ih =>
    exact ih (hconcat hbase (hstep hn (hns _ List.mem_cons_self)))
      fun m hm => hns m (List.mem_cons_of_mem _ hm)
  | @link _ base _ _ _ target hn hk _ _ ih =>
    refine ih ?_ fun m hm => ?_
    · split
      · exact fun m hm => absurd hm List.not_mem_nil
      · exact hbase
    · rcases List.mem_append.mp hm with hm | hm
      · exact Path.of_mem_names hm
      · exact hns m (List.mem_cons_of_mem _ hm)

end Place

namespace FileTree

/-- The names that a path leads to are such that a path can go down along them. -/
theorem isStep_of_place {t : FileTree} {ending : Ending} {p : Path} {base : List Name} {name : Name}
    {asDir : Bool} (hhere : ∀ n ∈ t.here, Path.IsFileName n)
    (h : t.place ending p = .ok (.entry base name asDir)) :
    ∀ n ∈ base ++ [name], Path.IsStep n := by
  obtain ⟨hne, hzero, hshort⟩ := place_eq_ok h
  rw [place_of_short hne hzero hshort] at h
  obtain ⟨hplain, links, hroute⟩ := Place.route_of_walk h
  refine hroute.isStep hplain ?_ fun n hn => Path.of_mem_names hn
  split
  · exact fun n hn => absurd hn List.not_mem_nil
  · exact fun n hn => (hhere n hn).isStep

/-- A path leads to a file if a walk along it comes to one. -/
theorem isFile_iff {t : FileTree} {p : Path} : t.isFile p = true ↔ ∃ base name,
    t.place .follow p = .ok (.entry base name false) ∧
      t.root.kinds base name = some (some .file) := by
  unfold isFile
  constructor
  · intro h
    split at h
    · next mark content hlook =>
      unfold look at hlook
      split at hlook
      · cases hlook
      · cases hlook
      · next base name asDir hplace =>
        obtain ⟨-, ⟨g, hg⟩, -⟩ := route_of_place hplace
        rw [folder, hg, Option.getD_some] at hlook
        split at hlook
        · cases hlook
        · cases hlook
        · next node _ hnode =>
          split at hlook
          · cases hlook
          · next hasDir =>
            cases hlook
            rw [Bool.not_eq_true] at hasDir
            refine ⟨base, name, hasDir ▸ hplace, ?_⟩
            rw [Folder.kinds, hg, Option.map_some, hnode]
            rfl
    · cases h
  · rintro ⟨base, name, hplace, hk⟩
    obtain ⟨g, node, hg, hnode, hkind⟩ := find?_of_kinds hk
    rw [look, hplace]
    dsimp only
    rw [folder, hg, Option.getD_some, hnode]
    cases node with
    | file mark content => rfl
    | link target => cases hkind
    | dir inner => cases hkind

/-! ## a file at a free name -/

/-- `t'` is `t` with a file at the name `x`, which was free. -/
structure NewFile (base : List Name) (x : Name) (t t' : FileTree) : Prop where
  here_eq : t'.here = t.here
  free : ∃ g, t.root.at? base = some g ∧ g.find? x = none
  root_eq : ∃ mark content, t'.root = t.root.within (Folder.put x (.file mark content)) base

namespace NewFile

variable {base : List Name} {x : Name} {t t' : FileTree}

theorem passable (h : NewFile base x t t') : t.root.Passable t'.root := by
  obtain ⟨g, hg, hfree⟩ := h.free
  obtain ⟨mark, content, hroot⟩ := h.root_eq
  rw [hroot]
  exact passable_put_file hg (fun _ hnode => Folder.kind_of_free hfree hnode) (.file mark content)

theorem kinds_self (h : NewFile base x t t') :
    t.root.kinds base x = some none ∧ t'.root.kinds base x = some (some .file) := by
  obtain ⟨g, hg, hfree⟩ := h.free
  obtain ⟨mark, content, hroot⟩ := h.root_eq
  rw [hroot, Folder.kinds, Folder.kinds, Folder.at?_within_self hg, hg, Option.map_some,
    Option.map_some, hfree, Folder.find?_put_self]
  exact ⟨rfl, rfl⟩

/-- Below the new file there is nothing, and there was nothing. -/
theorem at?_below (h : NewFile base x t t') {b : List Name} (hb : base ++ [x] <+: b) :
    t.root.at? b = none ∧ t'.root.at? b = none := by
  obtain ⟨rest, rfl⟩ := hb
  have hnone : ∀ {r : Folder} {k : Option Kind}, r.kinds base x = some k → k ≠ some .dir →
      r.at? (base ++ [x] ++ rest) = none := by
    intro r k hk hdir
    rw [Folder.at?_append]
    cases hat : r.at? (base ++ [x]) with
    | none => rfl
    | some f =>
      rw [Folder.kinds_eq_dir hat] at hk
      exact absurd (Option.some.inj hk).symm hdir
  obtain ⟨hfree, hfile⟩ := h.kinds_self
  exact ⟨hnone hfree (by simp), hnone hfile (by simp)⟩

theorem kinds_of_ne (h : NewFile base x t t') {b : List Name} {n : Name}
    (hne : (b, n) ≠ (base, x)) : t'.root.kinds b n = t.root.kinds b n := by
  obtain ⟨mark, content, hroot⟩ := h.root_eq
  by_cases hb : base ++ [x] <+: b
  · obtain ⟨hbefore, hafter⟩ := h.at?_below hb
    rw [Folder.kinds, Folder.kinds, hbefore, hafter]
  · rw [hroot]
    exact Folder.kinds_within_name
      (fun f y hy => Folder.find?_put_of_ne (Ne.symm hy) (.file mark content) f) t.root hb hne

/-- A walk goes where it went, or it went on from the free name. -/
theorem walk_cases (h : NewFile base x t t') (ending : Ending) (links : Nat) (b : List Name)
    (asDir : Bool) (ns : List Name) :
    Place.walk t'.root ending links b asDir ns = Place.walk t.root ending links b asDir ns ∨
      Place.walk t'.root ending links b asDir ns = .error .notDirectory ∧
        Place.walk t.root ending links b asDir ns = .error .notFound := by
  match ns with
  | [] =>
    rw [Place.walk_nil, Place.walk_nil]
    exact .inl rfl
  | n :: ns =>
    by_cases hdot : n = [Path.dot]
    · subst hdot
      rw [Place.walk_dot, Place.walk_dot]
      exact walk_cases h ending links b asDir ns
    · by_cases hup : n = [Path.dot, Path.dot]
      · subst hup
        rw [Place.walk_up, Place.walk_up]
        exact walk_cases h ending links b.dropLast asDir ns
      · by_cases hlong : Place.longestName < n.length
        · rw [Place.walk_of_long hdot hup hlong, Place.walk_of_long hdot hup hlong]
          exact .inl rfl
        · have hn : Place.IsPlain n := ⟨hdot, hup, Nat.not_lt.mp hlong⟩
          rw [Place.walk_plain hn, Place.walk_plain hn]
          by_cases hnew : (b, n) = (base, x)
          · obtain ⟨rfl, rfl⟩ := Prod.mk.inj hnew
            obtain ⟨hfree, hfile⟩ := h.kinds_self
            rw [hfree, hfile]
            dsimp only
            split
            · exact .inl rfl
            · exact .inr ⟨rfl, rfl⟩
          · rw [h.kinds_of_ne hnew]
            split
            · exact .inl rfl
            · exact .inl rfl
            · exact .inl rfl
            · split
              · exact .inl rfl
              · exact walk_cases h ending links (b ++ [n]) asDir ns
            · split
              · exact .inl rfl
              · split
                · exact .inl rfl
                · exact walk_cases h ending _ _ _ _
termination_by (links, ns.length)

theorem place_cases (h : NewFile base x t t') (ending : Ending) (p : Path) :
    t'.place ending p = t.place ending p ∨
      t'.place ending p = .error .notDirectory ∧ t.place ending p = .error .notFound := by
  unfold place
  rw [h.here_eq]
  split
  · exact .inl rfl
  · split
    · exact .inl rfl
    · split
      · exact .inl rfl
      · exact h.walk_cases ..

/-- The paths to a file are those that led to one and those that led to the free name. -/
theorem isFile_iff (h : NewFile base x t t') {p : Path} : t'.isFile p = true ↔
    t.isFile p = true ∨ t.place .follow p = .ok (.entry base x false) := by
  rw [FileTree.isFile_iff, FileTree.isFile_iff]
  obtain ⟨hfree, hfile⟩ := h.kinds_self
  rcases h.place_cases .follow p with hplace | ⟨hplace', hplace⟩
  · rw [hplace]
    constructor
    · rintro ⟨b, n, hp, hk⟩
      by_cases hnew : (b, n) = (base, x)
      · obtain ⟨rfl, rfl⟩ := Prod.mk.inj hnew
        exact .inr hp
      · exact .inl ⟨b, n, hp, h.kinds_of_ne hnew ▸ hk⟩
    · rintro (⟨b, n, hp, hk⟩ | hp)
      · refine ⟨b, n, hp, ?_⟩
        rw [h.kinds_of_ne, hk]
        intro hnew
        obtain ⟨rfl, rfl⟩ := Prod.mk.inj hnew
        rw [hfree] at hk
        cases hk
      · exact ⟨base, x, hp, hfile⟩
  · rw [hplace, hplace']
    constructor
    · rintro ⟨b, n, hp, -⟩
      cases hp
    · rintro (⟨b, n, hp, -⟩ | hp)
      · cases hp
      · cases hp

/-- A directory is where it was. -/
theorem isDir (h : NewFile base x t t') {dir : Path} (hdir : t.isDir dir = true) :
    t'.isDir dir = true := by
  obtain ⟨d, hreach⟩ := reaches_of_isDir hdir
  obtain ⟨hne, -, hshort⟩ := short_of_isDir hdir
  exact (hreach.mono h.passable h.here_eq).isDir hne hshort

/-- The path that goes down from a directory to the free name leads to no file. -/
theorem isFile_descend (h : NewFile base x t t') {dir : Path} {d ns : List Name}
    (hne : dir.bytes ≠ []) (hreach : t.Reaches dir d) (hbase : base = d ++ ns)
    (hnames : ∀ n ∈ ns ++ [x], Path.IsStep n) : t.isFile (dir.descend (ns ++ [x])) = false := by
  obtain ⟨g, hg, hfree⟩ := h.free
  rw [Bool.eq_false_iff]
  intro hfile
  obtain ⟨b, n, hplace, hk⟩ := FileTree.isFile_iff.mp hfile
  obtain ⟨-, hzero, hshort⟩ := place_eq_ok hplace
  have hsteps : ∀ n ∈ ns ++ [x], Path.IsFileName n := by
    intro n hn
    refine (hnames n hn).isFileName fun hz => hzero ?_
    exact Path.mem_descend (fun m hm => (hnames m hm).slash_not_mem) (.inr ⟨n, hn, hz⟩)
  obtain ⟨hbytes, habsolute, hpath⟩ := Path.names_descend hne hsteps
  obtain ⟨-, links, htrail⟩ := hreach
  rw [place_of_short hbytes hzero hshort, habsolute, hpath,
    htrail.walk_append .follow _ (List.append_ne_nil_of_right_ne_nil ns (List.cons_ne_nil x []))]
    at hplace
  rw [hbase] at hg
  rcases Place.walk_down hnames hg hfree .follow (dir.descend (ns ++ [x])).endsWithSlash with
    hlong | hend
  · rw [hlong] at hplace
    cases hplace
  · rw [hend, ← hbase] at hplace
    obtain ⟨hb, hn, -⟩ := Place.entry.inj (Except.ok.inj hplace)
    rw [← hb, ← hn, h.kinds_self.1] at hk
    cases hk

/-- A directory beside the new file holds what it held. -/
theorem folder_apart (h : NewFile base x t t') {d : List Name} (habove : ¬ d <+: base) :
    t'.folder d = t.folder d := by
  obtain ⟨mark, content, hroot⟩ := h.root_eq
  unfold folder
  by_cases hbelow : base ++ [x] <+: d
  · obtain ⟨hbefore, hafter⟩ := h.at?_below hbelow
    rw [hbefore, hafter]
  · rw [hroot, Folder.at?_within_apart
      (fun f y hy => Folder.find?_put_of_ne (Ne.symm hy) (.file mark content) f) habove hbelow]

/-- The rows below a directory that lead to a file. -/
theorem rows_filter_isFile (h : NewFile base x t t') {dir : Path} {d : List Name}
    (hne : dir.bytes ≠ []) (hreach : t.Reaches dir d)
    (hnames : ∀ n ∈ base ++ [x], Path.IsStep n) :
    ((t'.folder d).rows.map (·.1)).filter (t.isFile ∘ dir.descend) =
      ((t.folder d).rows.map (·.1)).filter (t.isFile ∘ dir.descend) := by
  by_cases habove : d <+: base
  · obtain ⟨ns, hns⟩ := habove
    obtain ⟨g, hg, hfree⟩ := h.free
    obtain ⟨mark, content, hroot⟩ := h.root_eq
    rw [← hns, Folder.at?_append] at hg
    obtain ⟨f, hf, hfg⟩ := Option.bind_eq_some_iff.mp hg
    have hchanged : t'.folder d = f.within (Folder.put x (.file mark content)) ns := by
      rw [folder, hroot, ← hns, Folder.at?_within_above, hf]
      rfl
    have hnot : (t.isFile ∘ dir.descend) (ns ++ [x]) = false := by
      refine h.isFile_descend hne hreach hns.symm fun n hn => hnames n ?_
      rw [← hns, List.append_assoc]
      exact List.mem_append_right d hn
    rw [hchanged, Folder.rows_within_put hfg hfree hnot, folder, hf]
    rfl
  · rw [h.folder_apart habove]

/-- **What a directory lists when a file was made.**  The paths that lead to the new file apart, it
lists what it listed, in the same order. -/
theorem files_eq (h : NewFile base x t t') {dir : Path} (hdir : t.isDir dir = true)
    (hnames : ∀ n ∈ base ++ [x], Path.IsStep n) :
    (t'.files dir).filter (fun p => t.place .follow p ≠ .ok (.entry base x false)) =
      t.files dir := by
  obtain ⟨d, hreach⟩ := reaches_of_isDir hdir
  have hlisted := hreach.folder?_eq hdir
  have hlisted' := (hreach.mono h.passable h.here_eq).folder?_eq (h.isDir hdir)
  have hne : dir.bytes ≠ [] := (short_of_isDir hdir).1
  -- the files that are not the new one are the files that were there
  have hold : ∀ p, (decide (t.place .follow p ≠ .ok (.entry base x false)) && t'.isFile p) =
      t.isFile p := by
    intro p
    have hfree : t.isFile p = true → t.place .follow p ≠ .ok (.entry base x false) := by
      intro hfile hplace
      obtain ⟨b, n, hplace', hk⟩ := FileTree.isFile_iff.mp hfile
      rw [hplace] at hplace'
      cases hplace'
      rw [h.kinds_self.1] at hk
      cases hk
    rw [Bool.eq_iff_iff, Bool.and_eq_true, decide_eq_true_eq, h.isFile_iff]
    constructor
    · rintro ⟨hnot, hfile | hplace⟩
      · exact hfile
      · exact absurd hplace hnot
    · exact fun hfile => ⟨hfree hfile, .inl hfile⟩
  have hrows : ∀ f : Folder, (f.rows.map fun r => dir.descend r.1).filter t.isFile =
      ((f.rows.map (·.1)).filter (t.isFile ∘ dir.descend)).map dir.descend := by
    intro f
    rw [← List.filter_map, List.map_map]
    rfl
  unfold files
  rw [hlisted, hlisted', Option.getD_some, Option.getD_some, List.filter_filter, funext hold,
    hrows, hrows, h.rows_filter_isFile hne hreach hnames]

end NewFile

/-- A file that is opened where none was is made there. -/
theorem newFile_openFile {t : FileTree} {p : Path} {base : List Name} {x : Name}
    (h : t.fileSpot p = .ok (base, x, none)) :
    ∃ t', t.openFile p = .ok (t.nextMark, t') ∧ NewFile base x t t' ∧
      t'.fileSpot p = .ok (base, x, some (t.nextMark, .empty)) := by
  obtain ⟨g, hg, hfree, hfile⟩ := site_of_fileSpot h
  refine ⟨{ t.put base x (.file t.nextMark .empty) with nextMark := t.nextMark + 1 }, ?_,
    ⟨rfl, ⟨g, hg, hfree⟩, t.nextMark, .empty, rfl⟩, ?_⟩
  · rw [openFile, h]
  · exact fileSpot_put_self hg hfile t.nextMark .empty (t.nextMark + 1) h

end FileTree

end PageFuzz
