import PageFuzz.Files.Folder

/-!
# What a walk sees of a folder

A walk along a path asks of each name only whether it stands for a file, a link or a directory.  So
a change that keeps these answers does not lead any walk astray.

* `Folder.kinds`              the answer at a name of a directory, none if there is no directory;
* `Folder.Passable`           every directory and link of one folder is there in another;
* `Folder.passable_within`    so it is after a change of a name that is a file or free;
* `Folder.kinds_changeMarked` a change of contents keeps all answers;
* `Folder.give`               a folder after a file in it was given its content.
-/

namespace PageFuzz

inductive Kind where
  | file
  | link (target : Path)
  | dir

def Node.kind : Node → Kind
  | .file _ _ => .file
  | .link target => .link target
  | .dir _ => .dir

namespace Folder

/-! ## a folder as a list of entries -/

/-- a folder is empty or an entry before a folder -/
@[elab_as_elim]
theorem consInduction {motive : Folder → Prop} (nil : motive nil)
    (cons : ∀ n node rest, motive rest → motive (cons n node rest)) (f : Folder) : motive f := by
  induction f with
  | nil => exact nil
  | file n mark content rest ih => exact cons n (.file mark content) rest ih
  | link n target rest ih => exact cons n (.link target) rest ih
  | dir n inner rest _ ih => exact cons n (.dir inner) rest ih

theorem put_cons (name n : Name) (new node : Node) (rest : Folder) :
    (cons n node rest).put name new =
      if n = name then cons name new rest else cons n node (rest.put name new) := by
  cases node <;> rfl

theorem erase_cons (name n : Name) (node : Node) (rest : Folder) :
    (cons n node rest).erase name = if n = name then rest else cons n node (rest.erase name) := by
  cases node <;> rfl

def names : Folder → List Name
  | nil => []
  | file n _ _ rest => n :: rest.names
  | link n _ rest => n :: rest.names
  | dir n _ rest => n :: rest.names

theorem names_cons (n : Name) (node : Node) (rest : Folder) :
    (cons n node rest).names = n :: rest.names := by
  cases node <;> rfl

theorem find?_eq_none {name : Name} {f : Folder} : f.find? name = none ↔ name ∉ f.names := by
  induction f using consInduction with
  | nil => simp [find?, names]
  | cons n node rest ih =>
    rw [find?_cons, names_cons, List.mem_cons, not_or, ← ih]
    by_cases h : n = name
    · simp [h]
    · rw [if_neg h]
      exact ⟨fun hr => ⟨Ne.symm h, hr⟩, fun hr => hr.2⟩

theorem mem_names_of_find {name : Name} {f : Folder} {node : Node}
    (h : f.find? name = some node) : name ∈ f.names := by
  refine Decidable.byContradiction fun hnot => ?_
  rw [find?_eq_none.mpr hnot] at h
  cases h

/-- a new name comes last -/
theorem names_put {name : Name} {f : Folder} (node : Node) (h : name ∉ f.names) :
    (f.put name node).names = f.names ++ [name] := by
  induction f using consInduction with
  | nil => exact names_cons name node nil
  | cons n old rest ih =>
    rw [names_cons, List.mem_cons, not_or] at h
    rw [put_cons, if_neg (Ne.symm h.1), names_cons, names_cons, ih h.2, List.cons_append]

/-- a name that is there stays where it is -/
theorem names_put_of_mem {name : Name} {f : Folder} (node : Node) (h : name ∈ f.names) :
    (f.put name node).names = f.names := by
  induction f using consInduction with
  | nil => cases h
  | cons n old rest ih =>
    rw [put_cons]
    by_cases hn : n = name
    · rw [if_pos hn, names_cons, names_cons, hn]
    · rw [names_cons] at h
      have hrest : name ∈ rest.names := (List.mem_cons.mp h).resolve_left (Ne.symm hn)
      rw [if_neg hn, names_cons, names_cons, ih hrest]

theorem names_erase (name : Name) (f : Folder) : (f.erase name).names = f.names.erase name := by
  induction f using consInduction with
  | nil => rfl
  | cons n node rest ih =>
    rw [erase_cons, names_cons, List.erase_cons]
    by_cases h : n = name
    · rw [if_pos h, if_pos (by simpa using h)]
    · rw [if_neg h, if_neg (by simpa using h), names_cons, ih]

/-! ## answers to a walk -/

/-- what stands at a name of the directory that is reached by `base`, if there is that directory -/
def kinds (root : Folder) (base : List Name) (n : Name) : Option (Option Kind) :=
  (root.at? base).map fun f => (f.find? n).map Node.kind

theorem kinds_of_at {root g : Folder} {base : List Name} (hg : root.at? base = some g) (n : Name) :
    root.kinds base n = some ((g.find? n).map Node.kind) := by
  rw [kinds, hg]
  rfl

theorem kinds_nil (root : Folder) (n : Name) :
    root.kinds [] n = some ((root.find? n).map Node.kind) := rfl

theorem kinds_cons (root : Folder) (m : Name) (ms : List Name) (n : Name) :
    root.kinds (m :: ms) n =
      match root.find? m with
      | some (.dir inner) => inner.kinds ms n
      | _ => none := by
  rw [kinds, at?]
  cases root.find? m with
  | none => rfl
  | some node => cases node <;> rfl

theorem at?_append (root : Folder) (a b : List Name) :
    root.at? (a ++ b) = (root.at? a).bind fun f => f.at? b := by
  induction a generalizing root with
  | nil => rfl
  | cons n ns ih =>
    rw [List.cons_append, at?, at?]
    split
    · exact ih _
    · rfl

/-- Above a directory that is reached by names there is one in which the last of them stands. -/
theorem find?_eq_dir {root f : Folder} {base : List Name} {n : Name}
    (h : root.at? (base ++ [n]) = some f) :
    ∃ above, root.at? base = some above ∧ above.find? n = some (.dir f) := by
  rw [at?_append] at h
  obtain ⟨above, ha, hf⟩ := Option.bind_eq_some_iff.mp h
  refine ⟨above, ha, ?_⟩
  rw [at?] at hf
  split at hf
  · next inner hn =>
    rw [hn, Option.some.inj hf]
  · cases hf

theorem kinds_eq_dir {root f : Folder} {base : List Name} {n : Name}
    (h : root.at? (base ++ [n]) = some f) : root.kinds base n = some (some .dir) := by
  obtain ⟨above, ha, hn⟩ := find?_eq_dir h
  rw [kinds, ha, Option.map_some, hn]
  rfl

/-- A change of one name in a directory keeps the answers at other names that are not below it. -/
theorem kinds_within_name {change : Folder → Folder} {name : Name}
    (hchange : ∀ f x, x ≠ name → (change f).find? x = f.find? x) {base b : List Name} {n : Name}
    (root : Folder) (hb : ¬ base ++ [name] <+: b) (hn : (b, n) ≠ (base, name)) :
    (root.within change base).kinds b n = root.kinds b n := by
  -- the way to the change and the way to the question part at some name, or the question is above
  induction base generalizing root b with
  | nil =>
    cases b with
    | nil =>
      have hne : n ≠ name := fun h => hn (by rw [h])
      rw [within, kinds_nil, kinds_nil, hchange _ _ hne]
    | cons x xs =>
      have hne : x ≠ name := fun h => hb ⟨xs, by rw [h]; rfl⟩
      rw [within, kinds_cons, kinds_cons, hchange _ _ hne]
  | cons m ms ih =>
    rw [within]
    split
    · next inner hm =>
      cases b with
      | nil =>
        rw [kinds_nil, kinds_nil]
        by_cases hne : m = n
        · subst hne
          rw [find?_put_self, hm]
          rfl
        · rw [find?_put_of_ne hne]
      | cons x xs =>
        rw [kinds_cons, kinds_cons]
        by_cases hne : m = x
        · subst hne
          rw [find?_put_self, hm]
          refine ih inner (fun hp => hb ?_) (fun he => hn ?_)
          · rw [List.cons_append]
            exact List.cons_prefix_cons.mpr ⟨rfl, hp⟩
          · rw [(Prod.mk.inj he).1, (Prod.mk.inj he).2]
        · rw [find?_put_of_ne hne]
    · rfl

/-- The directories and links of `r`, which a walk goes through, are the same in `r'`. -/
def Passable (r r' : Folder) : Prop :=
  ∀ b n k, r.kinds b n = some (some k) → k ≠ .file → r'.kinds b n = some (some k)

/-- A change of a name that is a file or free leaves all directories and links. -/
theorem passable_within {change : Folder → Folder} {name : Name}
    (hchange : ∀ f x, x ≠ name → (change f).find? x = f.find? x) {root g : Folder}
    {base : List Name} (hg : root.at? base = some g)
    (hfile : ∀ node, g.find? name = some node → node.kind = .file) :
    Passable root (root.within change base) := by
  have hname : ∀ k, root.kinds base name = some (some k) → k = .file := by
    intro k hk
    rw [kinds, hg] at hk
    obtain ⟨node, hnode, rfl⟩ := Option.map_eq_some_iff.mp (Option.some.inj hk)
    exact hfile node hnode
  intro b n k hk hother
  have hbelow : ¬ base ++ [name] <+: b := by
    rintro ⟨c, rfl⟩
    obtain ⟨inner, hin, -⟩ := Option.map_eq_some_iff.mp hk
    rw [at?_append] at hin
    obtain ⟨f, hf, -⟩ := Option.bind_eq_some_iff.mp hin
    exact absurd (hname .dir (kinds_eq_dir hf)) nofun
  have hne : (b, n) ≠ (base, name) := by
    intro he
    obtain ⟨rfl, rfl⟩ := Prod.mk.inj he
    exact hother (hname k hk)
  rw [kinds_within_name hchange root hbelow hne, hk]

/-! ## changing contents -/

def Node.changeMarked (mark : Nat) (change : ByteArray → ByteArray) : Node → Node
  | .file m content => .file m (if m = mark then change content else content)
  | .link target => .link target
  | .dir inner => .dir (inner.changeMarked mark change)

theorem kind_changeMarked (mark : Nat) (change : ByteArray → ByteArray) (node : Node) :
    (Node.changeMarked mark change node).kind = node.kind := by
  cases node <;> rfl

theorem changeMarked_cons (mark : Nat) (change : ByteArray → ByteArray) (n : Name) (node : Node)
    (rest : Folder) :
    (cons n node rest).changeMarked mark change =
      cons n (Node.changeMarked mark change node) (rest.changeMarked mark change) := by
  cases node <;> rfl

theorem find?_changeMarked (mark : Nat) (change : ByteArray → ByteArray) (name : Name)
    (f : Folder) :
    (f.changeMarked mark change).find? name =
      (f.find? name).map (Node.changeMarked mark change) := by
  induction f using consInduction with
  | nil => rfl
  | cons n node rest ih =>
    rw [changeMarked_cons, find?_cons, find?_cons]
    by_cases h : n = name
    · rw [if_pos h, if_pos h]
      rfl
    · rw [if_neg h, if_neg h, ih]

theorem at?_changeMarked (mark : Nat) (change : ByteArray → ByteArray) (root : Folder)
    (base : List Name) :
    (root.changeMarked mark change).at? base =
      (root.at? base).map (changeMarked mark change) := by
  induction base generalizing root with
  | nil => rfl
  | cons n ns ih =>
    rw [at?, at?, find?_changeMarked]
    cases root.find? n with
    | none => rfl
    | some node =>
      cases node with
      | file m content => rfl
      | link target => rfl
      | dir inner => exact ih inner

theorem kinds_changeMarked (mark : Nat) (change : ByteArray → ByteArray) (root : Folder)
    (base : List Name) (n : Name) :
    (root.changeMarked mark change).kinds base n = root.kinds base n := by
  rw [kinds, kinds, at?_changeMarked, Option.map_map]
  congr 1
  funext f
  show ((f.changeMarked mark change).find? n).map Node.kind = _
  rw [find?_changeMarked, Option.map_map]
  congr 1
  funext node
  exact kind_changeMarked mark change node

theorem names_changeMarked (mark : Nat) (change : ByteArray → ByteArray) (f : Folder) :
    (f.changeMarked mark change).names = f.names := by
  induction f using consInduction with
  | nil => rfl
  | cons n node rest ih => rw [changeMarked_cons, names_cons, names_cons, ih]

/-- A change of contents leaves all directories and links. -/
theorem passable_changeMarked (mark : Nat) (change : ByteArray → ByteArray) (root : Folder) :
    Passable root (root.changeMarked mark change) := by
  intro base n k hk _
  rw [kinds_changeMarked]
  exact hk

/-! ## giving a file its content -/

/-- What a folder holds after the file of a name was given its content.  A file that is there is
changed under all its names; otherwise there is a new one, with the mark `fresh`. -/
def give (name : Name) (fresh : Nat) (content : ByteArray) (f : Folder) : Folder :=
  match f.find? name with
  | some (.file mark _) => f.changeMarked mark fun _ => content
  | _ => f.put name (.file fresh content)

section
variable {name : Name} {fresh : Nat} {content : ByteArray} {f : Folder}

theorem give_of_free (h : f.find? name = none) :
    f.give name fresh content = f.put name (.file fresh content) := by
  rw [give, h]

theorem names_give : (f.give name fresh content).names =
    if name ∈ f.names then f.names else f.names ++ [name] := by
  unfold give
  split
  · next mark old hfound =>
    rw [names_changeMarked, if_pos (mem_names_of_find hfound)]
  · by_cases hmem : name ∈ f.names
    · rw [if_pos hmem, names_put_of_mem _ hmem]
    · rw [if_neg hmem, names_put _ hmem]

theorem find?_give_self : ∃ mark,
    (f.give name fresh content).find? name = some (.file mark content) := by
  unfold give
  split
  · next mark old hfound =>
    refine ⟨mark, ?_⟩
    rw [find?_changeMarked, hfound, Option.map_some, Node.changeMarked, if_pos rfl]
  · exact ⟨fresh, find?_put_self name _ f⟩

/-- Every other name stands for what it stood for. -/
theorem kind_give_of_ne {x : Name} (hx : name ≠ x) :
    ((f.give name fresh content).find? x).map Node.kind = (f.find? x).map Node.kind := by
  unfold give
  split
  · next mark old hfound =>
    rw [find?_changeMarked, Option.map_map]
    congr 1
    funext node
    exact kind_changeMarked mark _ node
  · rw [find?_put_of_ne hx]

end

end Folder

end PageFuzz
