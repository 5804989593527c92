import PageFuzz.Proofs.Files.Contents

/-!
# What a change leaves alone

A change at one name of one directory is seen at that name, in the directories above it, which hold
another entry than before, and below it.  Everything else stays as it was.

* `Folder.at?_within_above`   the directories above the change;
* `Folder.at?_within_apart`   the directories beside it;
* `Folder.find?_within_of_ne` the other entries, up to what directories among them hold;
* `fileSpot_put_self`, `fileSpot_put_of_ne`   a file that is put, and all others;
* `writeFile_eq_ok`           what writing a file does;
* `fileSpot_writeFile`, `fileSpot_writeFile_other`   the file that is written, and all others.
-/

namespace PageFuzz

namespace Folder

variable {change : Folder → Folder} {name : Name}

/-- The directories above a change hold what they held, with the change further down. -/
theorem at?_within_above (change : Folder → Folder) (b rest : List Name) (root : Folder) :
    (root.within change (b ++ rest)).at? b = (root.at? b).map fun f => f.within change rest := by
  induction b generalizing root with
  | nil => rfl
  | cons n ns ih =>
    rw [List.cons_append, within]
    cases hn : root.find? n with
    | none => simp only [at?, hn, Option.map_none]
    | some node =>
      cases node with
      | file mark content => simp only [at?, hn, Option.map_none]
      | link target => simp only [at?, hn, Option.map_none]
      | dir inner =>
        dsimp only
        rw [at?, at?, find?_put_self, hn]
        exact ih inner

/-- A directory that is neither above a change nor below the name of the change. -/
theorem at?_within_apart (hchange : ∀ f x, x ≠ name → (change f).find? x = f.find? x)
    {base b : List Name} (habove : ¬ b <+: base) (hbelow : ¬ base ++ [name] <+: b)
    (root : Folder) : (root.within change base).at? b = root.at? b := by
  induction base generalizing root b with
  | nil =>
    obtain ⟨x, xs, rfl⟩ : ∃ x xs, b = x :: xs :=
      List.exists_cons_of_ne_nil fun hnil => habove (hnil ▸ List.prefix_rfl)
    have hx : x ≠ name := fun heq => hbelow ⟨xs, by rw [heq]; rfl⟩
    rw [within, at?, at?, hchange root x hx]
  | cons m ms ih =>
    obtain ⟨x, xs, rfl⟩ : ∃ x xs, b = x :: xs :=
      List.exists_cons_of_ne_nil fun hnil => habove (hnil ▸ List.nil_prefix)
    rw [within]
    cases hm : root.find? m with
    | none => rfl
    | some node =>
      cases node with
      | file mark content => rfl
      | link target => rfl
      | dir inner =>
        dsimp only
        by_cases hx : m = x
        · subst hx
          have hdeeper : ¬ xs <+: ms := fun h => habove (List.cons_prefix_cons.mpr ⟨rfl, h⟩)
          have hapart : ¬ ms ++ [name] <+: xs := fun h =>
            hbelow (List.cons_prefix_cons.mpr ⟨rfl, h⟩)
          rw [at?, at?, find?_put_self, hm]
          exact ih hdeeper hapart inner
        · rw [at?, at?, find?_put_of_ne hx]

/-- Another entry than that of the change is as it was, or a directory before and after. -/
theorem find?_within_of_ne (hchange : ∀ f x, x ≠ name → (change f).find? x = f.find? x)
    {base b : List Name} {n : Name} {root f : Folder} (hf : root.at? b = some f)
    (hne : (b, n) ≠ (base, name)) (hbelow : ¬ base ++ [name] <+: b) :
    ∃ f', (root.within change base).at? b = some f' ∧
      (f'.find? n = f.find? n ∨
        ∃ inner inner', f.find? n = some (.dir inner) ∧ f'.find? n = some (.dir inner')) := by
  by_cases habove : b <+: base
  · obtain ⟨rest, rfl⟩ := habove
    refine ⟨f.within change rest, by rw [at?_within_above, hf]; rfl, ?_⟩
    cases rest with
    | nil =>
      have hn : n ≠ name := fun heq => hne (by rw [heq, List.append_nil])
      exact .inl (hchange f n hn)
    | cons m ms =>
      rw [within]
      split
      · next inner hm =>
        by_cases hn : m = n
        · subst hn
          exact .inr ⟨inner, _, hm, find?_put_self _ _ f⟩
        · exact .inl (find?_put_of_ne hn _ f)
      · exact .inl rfl
  · exact ⟨f, (at?_within_apart hchange habove hbelow root).trans hf, .inl rfl⟩

/-- nothing but a file stands at a free name -/
theorem kind_of_free {g : Folder} (hfree : g.find? name = none) {node : Node}
    (hnode : g.find? name = some node) : node.kind = .file := by
  rw [hfree] at hnode
  cases hnode

/-- Nothing is below a name that stands for no directory. -/
theorem not_below_of_kind {base b : List Name} {root g f : Folder} (hg : root.at? base = some g)
    (hfile : ∀ node, g.find? name = some node → node.kind = .file) (hf : root.at? b = some f) :
    ¬ base ++ [name] <+: b := by
  rintro ⟨rest, rfl⟩
  rw [at?_append] at hf
  obtain ⟨inner, hinner, -⟩ := Option.bind_eq_some_iff.mp hf
  obtain ⟨above, habove, hname⟩ := find?_eq_dir hinner
  obtain rfl : g = above := Option.some.inj (hg.symm.trans habove)
  exact absurd (hfile _ hname) nofun

end Folder

namespace FileTree

/-! ## files -/

section
variable {t : FileTree} {base : List Name} {x : Name} {g : Folder}

/-- putting a file where a file is or where nothing is keeps all ways through directories -/
theorem passable_put_file (hg : t.root.at? base = some g)
    (hfile : ∀ node, g.find? x = some node → node.kind = .file) (node : Node) :
    t.root.Passable (t.put base x node).root :=
  Folder.passable_within (fun f _ hy => Folder.find?_put_of_ne (Ne.symm hy) node f) hg hfile

/-- Where a file is or may be made, its directory is there, and nothing but a file at its name. -/
theorem site_of_fileSpot {p : Path} {found : Option (Nat × ByteArray)}
    (h : t.fileSpot p = .ok (base, x, found)) :
    ∃ g, t.root.at? base = some g ∧ g.find? x = found.map (fun f => .file f.1 f.2) ∧
      ∀ node, g.find? x = some node → node.kind = .file := by
  obtain ⟨hplace, hnode⟩ := fileSpot_eq_ok.mp h
  obtain ⟨-, ⟨g, hg⟩, -⟩ := route_of_place hplace
  rw [folder, hg, Option.getD_some] at hnode
  refine ⟨g, hg, hnode, fun node hfound => ?_⟩
  rw [hnode] at hfound
  obtain ⟨f, -, rfl⟩ := Option.map_eq_some_iff.mp hfound
  rfl

/-- a path whose place is a file or free leads there still -/
theorem fileSpot_of_passable {t' : FileTree} {q : Path} {b : List Name} {n : Name}
    {found found' : Option (Nat × ByteArray)} (hpass : t.root.Passable t'.root)
    (hhere : t'.here = t.here) (hq : t.fileSpot q = .ok (b, n, found))
    (hthere : ∃ f', t'.root.at? b = some f' ∧
      f'.find? n = found'.map fun f => .file f.1 f.2) :
    t'.fileSpot q = .ok (b, n, found') := by
  obtain ⟨hplace, -⟩ := fileSpot_eq_ok.mp hq
  obtain ⟨hplain, -, hmove⟩ := route_of_place hplace
  obtain ⟨links, hmoved⟩ := hmove t'.root .create hpass fun _ hd => hd
  obtain ⟨f', hf', hnode⟩ := hthere
  have hkinds : t'.root.kinds b n = some (found'.map fun _ => .file) := by
    rw [Folder.kinds, hf', Option.map_some, hnode]
    cases found' <;> rfl
  have hsame : t'.place .create q = ({ t with root := t'.root } : FileTree).place .create q := by
    unfold place
    rw [hhere]
  refine fileSpot_eq_ok.mpr ⟨?_, ?_⟩
  · rw [hsame, hmoved, Place.walk_plain hplain, hkinds]
    cases found' <;> rfl
  · rw [folder, hf', Option.getD_some, hnode]

/-- A file that was put is found by every path that led to its place, -/
theorem fileSpot_put_self (hg : t.root.at? base = some g)
    (hfile : ∀ node, g.find? x = some node → node.kind = .file) (mark : Nat) (content : ByteArray)
    (nextMark : Nat) {q : Path} {found : Option (Nat × ByteArray)}
    (hq : t.fileSpot q = .ok (base, x, found)) :
    ({ t.put base x (.file mark content) with nextMark } : FileTree).fileSpot q =
      .ok (base, x, some (mark, content)) := by
  refine fileSpot_of_passable (passable_put_file hg hfile _) rfl hq
    ⟨g.put x (.file mark content), ?_, ?_⟩
  · exact Folder.at?_within_self hg
  · exact Folder.find?_put_self x _ g

/-- and any other file is as it was. -/
theorem fileSpot_put_of_ne (hg : t.root.at? base = some g)
    (hfile : ∀ node, g.find? x = some node → node.kind = .file) (mark : Nat) (content : ByteArray)
    (nextMark : Nat) {q : Path} {b : List Name} {n : Name} {found : Option (Nat × ByteArray)}
    (hq : t.fileSpot q = .ok (b, n, found)) (hne : (b, n) ≠ (base, x)) :
    ({ t.put base x (.file mark content) with nextMark } : FileTree).fileSpot q =
      .ok (b, n, found) := by
  obtain ⟨f, hf, hnode, -⟩ := site_of_fileSpot hq
  have hchange : ∀ f y, y ≠ x → (Folder.put x (.file mark content) f).find? y = f.find? y :=
    fun f _ hy => Folder.find?_put_of_ne (Ne.symm hy) _ f
  obtain ⟨f', hf', hentry⟩ := Folder.find?_within_of_ne hchange hf hne
    (Folder.not_below_of_kind hg hfile hf)
  refine fileSpot_of_passable (passable_put_file hg hfile _) rfl hq ⟨f', hf', ?_⟩
  rcases hentry with hsame | ⟨inner, -, hdir, -⟩
  · rw [hsame, hnode]
  · rw [hdir] at hnode
    cases found <;> cases hnode

end

section
variable {t t' : FileTree} {p : Path} {content : ByteArray}

/-- What writing a file does: a file that is there is changed by its mark, and otherwise a new one
is put where nothing was. -/
theorem writeFile_eq_ok (h : t.writeFile p content = .ok t') :
    (∃ base x mark old, t.fileSpot p = .ok (base, x, some (mark, old)) ∧
        t' = t.update mark fun _ => content) ∨
      ∃ base x g, t.fileSpot p = .ok (base, x, none) ∧ t.root.at? base = some g ∧
        g.find? x = none ∧
        t' = { t.put base x (.file t.nextMark content) with nextMark := t.nextMark + 1 } := by
  unfold writeFile at h
  split at h
  · cases h
  · next base x mark old hspot =>
    cases h
    exact .inl ⟨base, x, mark, old, hspot, rfl⟩
  · next base x hspot =>
    obtain ⟨g, hg, hfree, -⟩ := site_of_fileSpot hspot
    cases h
    exact .inr ⟨base, x, g, hspot, hg, hfree, rfl⟩

/-- A file that was written is read back. -/
theorem fileSpot_writeFile (h : t.writeFile p content = .ok t') :
    ∃ base x mark, t'.fileSpot p = .ok (base, x, some (mark, content)) := by
  rcases writeFile_eq_ok h with
    ⟨base, x, mark, old, hspot, rfl⟩ | ⟨base, x, g, hspot, hg, hfree, rfl⟩
  · exact ⟨base, x, mark, fileSpot_update _ hspot⟩
  · have hfile : ∀ node, g.find? x = some node → node.kind = .file := fun _ hnode =>
      Folder.kind_of_free hfree hnode
    exact ⟨base, x, t.nextMark, fileSpot_put_self hg hfile _ content _ hspot⟩

/-- the mark of the file that a path leads to -/
def mark? (t : FileTree) (p : Path) : Option Nat :=
  match t.fileSpot p with
  | .ok (_, _, some (mark, _)) => some mark
  | _ => none

theorem mark?_eq_some {mark : Nat} : t.mark? p = some mark ↔
    ∃ base x content, t.fileSpot p = .ok (base, x, some (mark, content)) := by
  unfold mark?
  split
  · next base x m content h => simp [h]
  · next hnone =>
    constructor
    · nofun
    · rintro ⟨base, x, content, h⟩
      exact absurd h (hnone base x mark content)

/-- A file is as it was after another was written, or both paths lead to the same one. -/
theorem fileSpot_writeFile_other (h : t.writeFile p content = .ok t') {q : Path} {b : List Name}
    {n : Name} {mark : Nat} {old : ByteArray}
    (hq : t.fileSpot q = .ok (b, n, some (mark, old))) :
    t'.fileSpot q = .ok (b, n, some (mark, old)) ∨
      t'.fileSpot q = .ok (b, n, some (mark, content)) ∧ t'.mark? p = some mark := by
  rcases writeFile_eq_ok h with ⟨base, x, m, was, hspot, rfl⟩ | ⟨base, x, g, hspot, hg, hfree, rfl⟩
  · have hother := fileSpot_update_any m (fun _ => content) hq
    by_cases hsame : mark = m
    · subst hsame
      rw [if_pos rfl] at hother
      exact .inr ⟨hother, mark?_eq_some.mpr ⟨base, x, _, fileSpot_update _ hspot⟩⟩
    · rw [if_neg hsame] at hother
      exact .inl hother
  · -- where the new file stands there was none
    have hne : (b, n) ≠ (base, x) := by
      intro heq
      obtain ⟨rfl, rfl⟩ := Prod.mk.inj heq
      obtain ⟨f, hf, hfound, -⟩ := site_of_fileSpot hq
      rw [Option.some.inj (hg.symm.trans hf), hfound] at hfree
      cases hfree
    have hfile : ∀ node, g.find? x = some node → node.kind = .file := fun _ hnode =>
      Folder.kind_of_free hfree hnode
    exact .inl (fileSpot_put_of_ne hg hfile _ content _ hq hne)

end

end FileTree

end PageFuzz
