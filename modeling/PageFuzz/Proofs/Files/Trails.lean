import PageFuzz.Proofs.Files.Contents

/-!
# Trails

A walk along the path of a directory, and on from there, takes a trail: through directories, up
again and through links, until no name is left.  A trail may be empty and may end above where it
began, so every path of a directory has one, `.` and `/` among them.

* `Trail.walk_append`   a trail leads on to more names;
* `Trail.mono`          a tree with the same directories and links has the same trails;
* `Trail.walk_eq`       where a walk ends that goes no further;
* `Reaches`             the directory that a path reaches, by its names from the root;
* `reaches_of_isDir`    every path of a directory reaches one;
* `Reaches.place_join`  a walk to a name in that directory.
-/

namespace PageFuzz

namespace Place

/-- the way of a walk until no name is left, in `base'` with `links'` more links -/
inductive Trail (root : Folder) (links' : Nat) (base' : List Name) :
    Nat → List Name → List Name → Prop where
  | done : Trail root links' base' links' base' []
  | dot {links : Nat} {base ns : List Name} :
      Trail root links' base' links base ns → Trail root links' base' links base ([Path.dot] :: ns)
  | up {links : Nat} {base ns : List Name} :
      Trail root links' base' links base.dropLast ns →
      Trail root links' base' links base ([Path.dot, Path.dot] :: ns)
  | into {links : Nat} {base ns : List Name} {n : Name} :
      IsPlain n → root.kinds base n = some (some .dir) →
      Trail root links' base' links (base ++ [n]) ns → Trail root links' base' links base (n :: ns)
  | link {links : Nat} {base ns : List Name} {n : Name} {target : Path} :
      IsPlain n → root.kinds base n = some (some (.link target)) →
      Trail root links' base' links (if target.isAbsolute then [] else base) (target.names ++ ns) →
      Trail root links' base' (links + 1) base (n :: ns)

namespace Trail

variable {root : Folder} {links links' : Nat} {base base' ns : List Name}

/-- A trail leads a walk on to more names. -/
theorem walk_append (h : Trail root links' base' links base ns) (ending : Ending) (asDir : Bool)
    {more : List Name} (hmore : more ≠ []) :
    walk root ending links base asDir (ns ++ more) = walk root ending links' base' asDir more := by
  induction h with
  | done => rfl
  | dot _ ih => rw [List.cons_append, walk_dot, ih]
  | up _ ih => rw [List.cons_append, walk_up, ih]
  | @into _ _ ns _ hn hk _ ih =>
    have hne : ¬ (ns ++ more).isEmpty = true := by simp [hmore]
    rw [List.cons_append, walk_plain hn, hk]
    dsimp only
    rw [if_neg hne, ih]
  | @link _ _ ns _ target hn hk _ ih =>
    have hne : (ns ++ more).isEmpty = false := by simp [hmore]
    rw [List.cons_append, walk_plain hn, hk]
    dsimp only
    rw [hne, Bool.false_and, Bool.false_and, Bool.or_false, if_neg Bool.false_ne_true,
      ← List.append_assoc, ih]

/-- A tree in which all directories and links are still there has the same trails. -/
theorem mono {r : Folder} (h : Trail root links' base' links base ns) (hpass : root.Passable r) :
    Trail r links' base' links base ns := by
  induction h with
  | done => exact .done
  | dot _ ih => exact .dot ih
  | up _ ih => exact .up ih
  | into hn hk _ ih => exact .into hn (hpass _ _ _ hk nofun) ih
  | link hn hk _ ih => exact .link hn (hpass _ _ _ hk nofun) ih

/-- A trail ends in one place only. -/
theorem unique {links₂ : Nat} {base₂ : List Name} (h : Trail root links' base' links base ns)
    (h₂ : Trail root links₂ base₂ links base ns) : base' = base₂ := by
  -- a walk that has a last dot to go ends in the directory itself
  have hend : ∀ {l b}, Trail root l b links base ns →
      walk root .keep links base false (ns ++ [[Path.dot]]) = .ok (.dir b) := by
    intro l b ht
    rw [ht.walk_append .keep false (List.cons_ne_nil _ _), walk_dot, walk_nil]
  have hsame := (hend h).symm.trans (hend h₂)
  cases hsame
  rfl

/-- Where a walk ends that goes no further: in the directory of the trail or at its entry, or at a
link that is not to be replaced. -/
theorem walk_eq (h : Trail root links' base' links base ns) (ending : Ending) (asDir : Bool) :
    walk root ending links base asDir ns = .ok (.dir base') ∨
      ∃ b n d, walk root ending links base asDir ns = .ok (.entry b n d) ∧
        (root.kinds b n = some (some .dir) ∧ base' = b ++ [n] ∨
          ∃ target, root.kinds b n = some (some (.link target)) ∧
            replacesLast ending d = false) := by
  induction h generalizing asDir with
  | done => exact .inl (walk_nil ..)
  | dot _ ih =>
    rw [walk_dot]
    exact ih asDir
  | up _ ih =>
    rw [walk_up]
    exact ih asDir
  | @into _ base ns n hn hk htrail ih =>
    rw [walk_plain hn, hk]
    dsimp only
    cases ns with
    | nil =>
      refine .inr ⟨base, n, asDir, rfl, .inl ⟨hk, ?_⟩⟩
      cases htrail
      rfl
    | cons m ms => exact ih asDir
  | @link _ base ns n target hn hk _ ih =>
    rw [walk_plain hn, hk]
    dsimp only
    by_cases hlast : (ns.isEmpty && !replacesLast ending asDir) = true
    · rw [if_pos hlast]
      refine .inr ⟨base, n, asDir, rfl, .inr ⟨target, hk, ?_⟩⟩
      rw [Bool.and_eq_true, Bool.not_eq_true'] at hlast
      exact hlast.2
    · rw [if_neg hlast]
      exact ih _

end Trail

/-- A route to a directory is a trail into it. -/
theorem Route.trail {root : Folder} {ending : Ending} {links links' : Nat} {base base' : List Name}
    {asDir asDir' : Bool} {ns : List Name} {name : Name}
    (h : Route root ending links' base' asDir' name links base asDir ns) (hname : IsPlain name)
    (hdir : root.kinds base' name = some (some .dir)) :
    Trail root links' (base' ++ [name]) links base ns := by
  induction h with
  | stop => exact .into hname hdir .done
  | dot _ ih => exact .dot ih
  | up _ ih => exact .up ih
  | into hn hk _ _ ih => exact .into hn hk ih
  | link hn hk _ _ ih => exact .link hn hk ih

/-- A walk that ends without a name has taken a trail. -/
theorem trail_of_walk {root : Folder} {ending : Ending} {links : Nat} {base base' : List Name}
    {asDir : Bool} {ns : List Name} (h : walk root ending links base asDir ns = .ok (.dir base')) :
    ∃ links', Trail root links' base' links base ns := by
  fun_induction walk root ending links base asDir ns with
  | case1 links =>
    cases h
    exact ⟨links, .done⟩
  | case2 links base asDir ns ih =>
    obtain ⟨links', hr⟩ := ih h
    exact ⟨links', .dot hr⟩
  | case3 links base asDir ns _ ih =>
    obtain ⟨links', hr⟩ := ih h
    exact ⟨links', .up hr⟩
  | case4 => cases h
  | case5 => cases h
  | case6 => cases h
  | case7 => cases h
  | case8 => cases h
  | case9 => cases h
  | case10 => cases h
  | case11 links base asDir n ns h1 h2 h3 inner hf _ ih =>
    obtain ⟨links', hr⟩ := ih h
    exact ⟨links', .into ⟨h1, h2, Nat.not_lt.mp h3⟩ (kinds_of_found hf) hr⟩
  | case12 => cases h
  | case13 => cases h
  | case14 base asDir n ns h1 h2 h3 target hf _ links ih =>
    obtain ⟨links', hr⟩ := ih h
    exact ⟨links', .link ⟨h1, h2, Nat.not_lt.mp h3⟩ (kinds_of_found hf) hr⟩

end Place

namespace FileTree

/-- The path reaches the directory with the names `base`, if there still is one. -/
structure Reaches (t : FileTree) (p : Path) (base : List Name) : Prop where
  zero_not_mem : (0 : UInt8) ∉ p.bytes
  trail : ∃ links, Place.Trail t.root links base Place.mostLinks
    (if p.isAbsolute then [] else t.here) p.names

section
variable {t : FileTree} {p : Path} {base : List Name}

/-- The empty path reaches the directory that paths start from. -/
theorem reaches_empty (t : FileTree) : t.Reaches ⟨[]⟩ t.here :=
  ⟨List.not_mem_nil, Place.mostLinks, .done⟩

theorem Reaches.mono {t' : FileTree} (h : t.Reaches p base) (hpass : t.root.Passable t'.root)
    (hhere : t'.here = t.here) : t'.Reaches p base := by
  obtain ⟨hzero, links, htrail⟩ := h
  refine ⟨hzero, links, ?_⟩
  rw [hhere]
  exact htrail.mono hpass

theorem Reaches.unique {base₂ : List Name} (h : t.Reaches p base) (h₂ : t.Reaches p base₂) :
    base = base₂ := by
  obtain ⟨-, links, htrail⟩ := h
  obtain ⟨-, links₂, htrail₂⟩ := h₂
  exact htrail.unique htrail₂

theorem isDir_iff : t.isDir p = true ↔ ∃ inner, t.look p = .ok (.dir inner) := by
  unfold isDir folder?
  constructor
  · intro h
    split at h
    · next inner hlook => exact ⟨inner, hlook⟩
    · cases h
  · rintro ⟨inner, hlook⟩
    rw [hlook]
    rfl

theorem reaches_of_isDir (h : t.isDir p = true) : ∃ base, t.Reaches p base := by
  obtain ⟨inner, hlook⟩ := isDir_iff.mp h
  unfold look at hlook
  split at hlook
  · cases hlook
  · next base hplace =>
    obtain ⟨hne, hzero, hshort⟩ := place_eq_ok hplace
    rw [place_of_short hne hzero hshort] at hplace
    obtain ⟨links, htrail⟩ := Place.trail_of_walk hplace
    exact ⟨base, hzero, links, htrail⟩
  · next base name asDir hplace =>
    obtain ⟨hne, hzero, hshort⟩ := place_eq_ok hplace
    rw [place_of_short hne hzero hshort] at hplace
    obtain ⟨g, hg⟩ := folder_of_walk hplace
    obtain ⟨hplain, links, hroute⟩ := Place.route_of_walk hplace
    rw [folder, hg, Option.getD_some] at hlook
    have hdir : t.root.kinds base name = some (some .dir) := by
      rw [Folder.kinds, hg, Option.map_some]
      split at hlook
      · cases hlook
      · next found hfound =>
        rw [hfound]
        rfl
      · next node hother hnode =>
        split at hlook
        · cases hlook
        · cases hlook
          exact absurd rfl (hother inner)
    exact ⟨base ++ [name], hzero, links, hroute.trail hplain hdir⟩

/-- Where a path of a directory leads. -/
theorem Reaches.place_eq (h : t.Reaches p base) (hne : p.bytes ≠ [])
    (hshort : p.bytes.length ≤ Place.longestPath) (ending : Ending) :
    t.place ending p = .ok (.dir base) ∨
      ∃ b n d, t.place ending p = .ok (.entry b n d) ∧
        (t.root.kinds b n = some (some .dir) ∧ base = b ++ [n] ∨
          ∃ target, t.root.kinds b n = some (some (.link target)) ∧
            Place.replacesLast ending d = false) := by
  obtain ⟨hzero, links, htrail⟩ := h
  rw [place_of_short hne hzero hshort]
  exact htrail.walk_eq ending p.endsWithSlash

/-- what stands at a name, seen from the directory or from the walk that asks for it -/
theorem find?_of_kinds {b : List Name} {n : Name} {k : Kind}
    (h : t.root.kinds b n = some (some k)) :
    ∃ g node, t.root.at? b = some g ∧ g.find? n = some node ∧ node.kind = k := by
  obtain ⟨g, hg, hfound⟩ := Option.map_eq_some_iff.mp h
  obtain ⟨node, hnode, hk⟩ := Option.map_eq_some_iff.mp hfound
  exact ⟨g, node, hg, hnode, hk⟩

theorem Reaches.isDir (h : t.Reaches p base) (hne : p.bytes ≠ [])
    (hshort : p.bytes.length ≤ Place.longestPath) : t.isDir p = true := by
  refine isDir_iff.mpr ?_
  unfold look
  rcases h.place_eq hne hshort .follow with hplace | ⟨b, n, d, hplace, ⟨hk, -⟩ | ⟨_, _, hkept⟩⟩
  · rw [hplace]
    exact ⟨_, rfl⟩
  · obtain ⟨g, node, hg, hnode, hkind⟩ := find?_of_kinds hk
    rw [hplace]
    dsimp only
    rw [folder, hg, Option.getD_some, hnode]
    cases node with
    | file mark content => cases hkind
    | link target => cases hkind
    | dir inner => exact ⟨inner, rfl⟩
  · cases hkept

/-- What is found by a path has a place. -/
theorem place_of_look {node : Node} (h : t.look p = .ok node) :
    ∃ place, t.place .follow p = .ok place := by
  unfold look at h
  split at h
  · cases h
  · next hplace => exact ⟨_, hplace⟩
  · next hplace => exact ⟨_, hplace⟩

/-- The path of a directory is a path that a walk can begin with. -/
theorem short_of_isDir (h : t.isDir p = true) :
    p.bytes ≠ [] ∧ (0 : UInt8) ∉ p.bytes ∧ p.bytes.length ≤ Place.longestPath := by
  obtain ⟨inner, hlook⟩ := isDir_iff.mp h
  obtain ⟨place, hplace⟩ := place_of_look hlook
  exact place_eq_ok hplace

/-- A path of a directory shows what is in the directory that it reaches. -/
theorem Reaches.folder?_eq (h : t.Reaches p base) (hdir : t.isDir p = true) :
    t.folder? p = some (t.folder base) := by
  obtain ⟨hne, -, hshort⟩ := short_of_isDir hdir
  obtain ⟨inner, hlook⟩ := isDir_iff.mp hdir
  have hinner : t.folder? p = some inner := by rw [folder?, hlook]
  rw [hinner, Option.some.injEq]
  unfold look at hlook
  rcases h.place_eq hne hshort .follow with hend | ⟨b, n, d, hend, ⟨hk, rfl⟩ | ⟨_, _, hkept⟩⟩
  · rw [hend] at hlook
    cases hlook
    rfl
  · obtain ⟨g, node, hg, hnode, hkind⟩ := find?_of_kinds hk
    rw [hend] at hlook
    dsimp only at hlook
    rw [folder, hg, Option.getD_some, hnode] at hlook
    cases node with
    | file mark content => cases hkind
    | link target => cases hkind
    | dir found =>
      cases hlook
      rw [folder, Folder.at?_append, hg]
      show inner = ((g.at? [n]).getD .nil)
      rw [Folder.at?, hnode]
      rfl
  · cases hkept

/-! ## making directories that are there -/

/-- Nothing can be made where a directory is. -/
theorem makeDir_of_isDir (h : t.isDir p = true) : t.makeDir p = .error .alreadyExists := by
  obtain ⟨base, hreach⟩ := reaches_of_isDir h
  obtain ⟨hne, -, hshort⟩ := short_of_isDir h
  unfold makeDir make
  rcases hreach.place_eq hne hshort .keep with hkeep | ⟨b, n, d, hkeep, hkind⟩
  · rw [hkeep]
  · obtain ⟨k, hk⟩ : ∃ k, t.root.kinds b n = some (some k) := by
      rcases hkind with ⟨hk, -⟩ | ⟨target, hk, -⟩ <;> exact ⟨_, hk⟩
    obtain ⟨g, node, hg, hnode, -⟩ := find?_of_kinds hk
    rw [hkeep]
    dsimp only
    rw [folder, hg, Option.getD_some, hnode]

theorem makeDirs_of_isDir (h : t.isDir p = true) : t.makeDirs p = (.ok (), t) := by
  have hmade := makeDir_of_isDir h
  unfold makeDirs makeDirsUp
  split
  · rfl
  · rw [hmade]
    show t.ensureDir p = _
    rw [ensureDir, hmade]
    dsimp only
    rw [if_pos h]

theorem isDir_of_ensureDir {t' : FileTree} (h : t.ensureDir p = (.ok (), t')) :
    t'.isDir p = true := by
  unfold ensureDir at h
  split at h
  · next hmade =>
    cases h
    rw [FileTree.isDir, (holds_makeDir hmade).folder?_eq]
    rfl
  · split at h
    · next hdir =>
      cases h
      exact hdir
    · cases h

/-- A directory that was made is there. -/
theorem isDir_of_makeDirs {t' : FileTree} (hne : p.bytes ≠ [])
    (h : t.makeDirs p = (.ok (), t')) : t'.isDir p = true := by
  have hempty : ¬ p.bytes.isEmpty = true := by simpa using hne
  unfold makeDirs makeDirsUp at h
  rw [if_neg hempty] at h
  split at h
  · split at h
    · cases h
    · exact isDir_of_ensureDir h
  · exact isDir_of_ensureDir h

/-! ## a name in a directory -/

/-- A walk to a name in the directory comes to that name, if neither it nor its path is too long. -/
theorem Reaches.place_join (h : t.Reaches p base) {x : Name} (hx : Path.IsFileName x) :
    ∃ links, ∀ ending, t.place ending (p.join ⟨x⟩) =
      if p.TooLong x then .error .nameTooLong
      else Place.walk t.root ending links base false [x] := by
  obtain ⟨hzero, links, htrail⟩ := h
  -- the empty path puts no slash before the name
  have hjoined : (p.join ⟨x⟩).bytes ≠ [] ∧ (0 : UInt8) ∉ (p.join ⟨x⟩).bytes ∧
      (p.join ⟨x⟩).isAbsolute = p.isAbsolute ∧ (p.join ⟨x⟩).names = p.names ++ [x] ∧
      (p.join ⟨x⟩).endsWithSlash = false := by
    by_cases hp : p.bytes = []
    · obtain rfl : p = ⟨[]⟩ := by
        cases p
        exact congrArg Path.mk hp
      have hjoin : (⟨[]⟩ : Path).join ⟨x⟩ = ⟨x⟩ := by
        rw [Path.join, Path.isAbsolute_of_isFileName hx]
        rfl
      have hlast : x.getLast hx.ne_nil ≠ Path.slash := fun he =>
        hx.slash_not_mem (he ▸ List.getLast_mem hx.ne_nil)
      rw [hjoin]
      refine ⟨hx.ne_nil, hx.zero_not_mem, Path.isAbsolute_of_isFileName hx,
        Path.names_of_isFileName hx, ?_⟩
      rw [Path.endsWithSlash, List.getLast?_eq_some_getLast hx.ne_nil]
      simpa using hlast
    · exact ⟨Path.join_ne_nil hp hx, Path.zero_not_mem_join hp hx hzero, Path.isAbsolute_join hp hx,
        Path.names_join hp hx, Path.endsWithSlash_join hp hx⟩
  obtain ⟨hne, hnozero, habsolute, hnames, hends⟩ := hjoined
  refine ⟨links, fun ending => ?_⟩
  by_cases hpath : Place.longestPath < (p.join ⟨x⟩).bytes.length
  · have h1 : (p.join ⟨x⟩).bytes.contains 0 = false := by simpa using hnozero
    have h2 : (p.join ⟨x⟩).bytes.isEmpty = false := by simpa using hne
    rw [if_pos (.inl hpath), place, h1, h2, if_neg Bool.false_ne_true, if_neg Bool.false_ne_true,
      if_pos hpath]
  · rw [place_of_short hne hnozero (Nat.not_lt.mp hpath), habsolute, hnames, hends,
      htrail.walk_append ending false (List.cons_ne_nil x [])]
    by_cases hlong : Place.longestName < x.length
    · rw [if_pos (.inr hlong), Place.walk_of_long hx.ne_dot hx.ne_up hlong]
    · have hfits : ¬ p.TooLong x := not_or_intro hpath hlong
      rw [if_neg hfits]

end

end FileTree

end PageFuzz
