import PageFuzz.Proofs.Files.Separation

/-!
# Making a directory with those above it

A directory is made after the directories above it, and each of these is empty while it is new.  So
on a path that never goes up, a directory that had to be made is empty when all is done.

* `Path.Below`              a path that goes on from another without going up;
* `Path.pairwise_ancestors` a path and its ancestors, each below the next, unless it goes up;
* `Trail.congr`             a name `.` makes no difference to a trail;
* `Trail.split`             a trail of two lists of names is one after the other;
* `Reaches.empty_below`     below an empty directory nothing is reached;
* `makeDirs_or_empty`       a directory was there, or it is empty when it has been made.
-/

namespace PageFuzz

/-! ## paths and their ancestors -/

namespace Path

/-- the names of a path that lead anywhere -/
def steps (p : Path) : List Name := p.names.filter (· != [dot])

/-- A path goes on from another and never goes up after that. -/
structure Below (p q : Path) : Prop where
  isAbsolute_eq : p.isAbsolute = q.isAbsolute
  steps_eq : ∃ ns, p.steps = q.steps ++ ns ∧ [dot, dot] ∉ ns

/-- Names with slashes between them are the names of the path that they make. -/
theorem names_intercalate {ns : List Name} (hns : ∀ n ∈ ns, n ≠ [] ∧ slash ∉ n) :
    (⟨[slash].intercalate ns⟩ : Path).names = ns := by
  induction ns with
  | nil => rfl
  | cons n ns ih =>
    obtain ⟨hne, hslash⟩ := hns n List.mem_cons_self
    have hrest := ih fun m hm => hns m (List.mem_cons_of_mem n hm)
    cases ns with
    | nil =>
      rw [List.intercalate_singleton]
      exact names_of_no_slash hne hslash
    | cons m ns =>
      rw [List.intercalate_cons_cons, List.append_assoc]
      exact (names_append_slash n _).trans (congrArg₂ _ (names_of_no_slash hne hslash) hrest)

/-- A path that is written from names has these names. -/
theorem names_ofParts {ns : List Name} (hns : ∀ n ∈ ns, n ≠ [] ∧ slash ∉ n) (isAbsolute : Bool) :
    (ofParts isAbsolute ns).names = ns := by
  cases isAbsolute with
  | false => exact names_intercalate hns
  | true => exact (names_append_slash [] _).trans (names_intercalate hns)

theorem isAbsolute_ofParts {ns : List Name} (hns : ∀ n ∈ ns, n ≠ [] ∧ slash ∉ n)
    (isAbsolute : Bool) : (ofParts isAbsolute ns).isAbsolute = isAbsolute := by
  cases isAbsolute with
  | true => rfl
  | false =>
    match ns with
    | [] => rfl
    | [] :: ns => exact absurd rfl (hns [] List.mem_cons_self).1
    | (b :: bs) :: ns =>
      -- what the path begins with is the first name, whatever follows it
      have hfirst : (⟨b :: bs⟩ : Path).isAbsolute = false :=
        isAbsolute_of_no_slash (hns _ List.mem_cons_self).2
      show (⟨[slash].intercalate ((b :: bs) :: ns)⟩ : Path).isAbsolute = false
      cases ns with
      | nil =>
        rw [List.intercalate_singleton]
        exact hfirst
      | cons m ns =>
        rw [List.intercalate_cons_cons, List.append_assoc]
        exact hfirst

/-- The names that matter are those that lead anywhere, up to a `.` at the start. -/
theorem filter_parts (p : Path) : p.parts.filter (· != [dot]) = p.steps := by
  unfold parts steps
  cases p.names with
  | nil => rfl
  | cons n ns =>
    dsimp only
    split
    · next h =>
      obtain ⟨hdot, -⟩ := Bool.and_eq_true_iff.mp h
      rw [List.filter_filter, List.filter_cons, bne, hdot]
      simp
    · rw [List.filter_cons, List.filter_cons, List.filter_filter]
      simp

theorem mem_parts {p : Path} {n : Name} (h : n ∈ p.parts) : n ∈ p.names := by
  unfold parts at h
  cases hnames : p.names with
  | nil => simp [hnames] at h
  | cons m ms =>
    rw [hnames] at h
    dsimp only at h
    split at h
    · exact List.mem_cons_of_mem m (List.mem_filter.mp h).1
    · rcases List.mem_cons.mp h with rfl | h
      · exact List.mem_cons_self
      · exact List.mem_cons_of_mem m (List.mem_filter.mp h).1

/-- the path of the first so many names -/
def upTo (p : Path) (k : Nat) : Path := ofParts p.isAbsolute (p.parts.take k)

theorem steps_upTo (p : Path) (k : Nat) :
    (p.upTo k).steps = (p.parts.take k).filter (· != [dot]) ∧
      (p.upTo k).isAbsolute = p.isAbsolute := by
  have hns : ∀ n ∈ p.parts.take k, n ≠ [] ∧ slash ∉ n := fun n hn =>
    of_mem_names (mem_parts (List.mem_of_mem_take hn))
  exact ⟨by rw [steps, upTo, names_ofParts hns], isAbsolute_ofParts hns _⟩

/-- More names of a path that never goes up lead below fewer of them. -/
theorem below_upTo {p q : Path} (hup : [dot, dot] ∉ p.names) {k m : Nat} (hkm : k ≤ m)
    (hsteps : q.steps = (p.parts.take m).filter (· != [dot])) (hq : q.isAbsolute = p.isAbsolute) :
    q.Below (p.upTo k) := by
  obtain ⟨hk, habsolute⟩ := p.steps_upTo k
  refine ⟨hq.trans habsolute.symm, ((p.parts.take m).drop k).filter (· != [dot]), ?_, fun h => ?_⟩
  · have htake : p.parts.take k = (p.parts.take m).take k := by
      rw [List.take_take, Nat.min_eq_left hkm]
    rw [hk, hsteps, ← List.filter_append, htake, List.take_append_drop]
  · exact hup (mem_parts (List.mem_of_mem_take (List.mem_of_mem_drop (List.mem_filter.mp h).1)))

theorem pairwise_ancestors {p : Path} (hup : [dot, dot] ∉ p.names) :
    (p :: p.ancestors).Pairwise Below := by
  have hancestors : p.ancestors =
      (List.range p.parts.length).map fun i => p.upTo (p.parts.length - 1 - i) := rfl
  rw [hancestors, List.pairwise_cons, List.pairwise_map]
  constructor
  · intro q hq
    obtain ⟨i, -, rfl⟩ := List.mem_map.mp hq
    refine below_upTo hup (m := p.parts.length) (by omega) ?_ rfl
    rw [List.take_length, filter_parts]
  · refine List.pairwise_lt_range.imp fun {i j} hij => ?_
    obtain ⟨hsteps, habsolute⟩ := p.steps_upTo (p.parts.length - 1 - i)
    exact below_upTo hup (by omega) hsteps habsolute

end Path

/-! ## trails that differ by points -/

namespace Place.Trail

variable {root : Folder} {links links' : Nat} {base base' : List Name}

theorem dots {ns pre : List Name} (hpre : ∀ n ∈ pre, n = [Path.dot])
    (h : Trail root links' base' links base ns) :
    Trail root links' base' links base (pre ++ ns) := by
  induction pre with
  | nil => exact h
  | cons n pre ih =>
    obtain rfl := hpre n List.mem_cons_self
    exact .dot (ih fun m hm => hpre m (List.mem_cons_of_mem _ hm))

/-- Names that begin alike, but for points. -/
theorem exists_of_filter {n : Name} {ns ms : List Name} (hn : n ≠ [Path.dot])
    (h : (n :: ns).filter (· != [Path.dot]) = ms.filter (· != [Path.dot])) :
    ∃ pre rest, ms = pre ++ n :: rest ∧ (∀ m ∈ pre, m = [Path.dot]) ∧
      ns.filter (· != [Path.dot]) = rest.filter (· != [Path.dot]) := by
  rw [List.filter_cons_of_pos (by simpa using hn), eq_comm, List.filter_eq_cons_iff] at h
  obtain ⟨pre, rest, hms, hpre, -, hrest⟩ := h
  exact ⟨pre, rest, hms, fun m hm => by simpa using hpre m hm, hrest.symm⟩

/-- A name `.` makes no difference to a trail. -/
theorem congr {ns ms : List Name} (h : Trail root links' base' links base ns)
    (hsame : ns.filter (· != [Path.dot]) = ms.filter (· != [Path.dot])) :
    Trail root links' base' links base ms := by
  induction h generalizing ms with
  | done =>
    rw [List.filter_nil, eq_comm, List.filter_eq_nil_iff] at hsame
    have hdots : ∀ m ∈ ms, m = [Path.dot] := fun m hm => by simpa using hsame m hm
    rw [← List.append_nil ms]
    exact .dots hdots .done
  | dot _ ih => exact ih hsame
  | up _ ih =>
    obtain ⟨pre, rest, rfl, hpre, hrest⟩ := exists_of_filter (by decide) hsame
    exact .dots hpre (.up (ih hrest))
  | into hn hk _ ih =>
    obtain ⟨pre, rest, rfl, hpre, hrest⟩ := exists_of_filter hn.1 hsame
    exact .dots hpre (.into hn hk (ih hrest))
  | link hn hk _ ih =>
    obtain ⟨pre, rest, rfl, hpre, hrest⟩ := exists_of_filter hn.1 hsame
    refine .dots hpre (.link hn hk (ih ?_))
    rw [List.filter_append, List.filter_append, hrest]

/-- A trail of two lists of names is a trail of the one and then a trail of the other. -/
theorem split {ns more : List Name} (h : Trail root links' base' links base (ns ++ more)) :
    ∃ l b, Trail root l b links base ns ∧ Trail root links' base' l b more := by
  generalize hall : ns ++ more = all at h
  induction h generalizing ns with
  | done =>
    obtain ⟨rfl, rfl⟩ := List.append_eq_nil_iff.mp hall
    exact ⟨_, _, .done, .done⟩
  | dot htrail ih =>
    rcases List.append_eq_cons_iff.mp hall with ⟨rfl, rfl⟩ | ⟨ns, rfl, hrest⟩
    · exact ⟨_, _, .done, .dot htrail⟩
    · obtain ⟨l, b, hfirst, hsecond⟩ := ih hrest.symm
      exact ⟨l, b, .dot hfirst, hsecond⟩
  | up htrail ih =>
    rcases List.append_eq_cons_iff.mp hall with ⟨rfl, rfl⟩ | ⟨ns, rfl, hrest⟩
    · exact ⟨_, _, .done, .up htrail⟩
    · obtain ⟨l, b, hfirst, hsecond⟩ := ih hrest.symm
      exact ⟨l, b, .up hfirst, hsecond⟩
  | into hn hk htrail ih =>
    rcases List.append_eq_cons_iff.mp hall with ⟨rfl, rfl⟩ | ⟨ns, rfl, hrest⟩
    · exact ⟨_, _, .done, .into hn hk htrail⟩
    · obtain ⟨l, b, hfirst, hsecond⟩ := ih hrest.symm
      exact ⟨l, b, .into hn hk hfirst, hsecond⟩
  | link hn hk htrail ih =>
    rcases List.append_eq_cons_iff.mp hall with ⟨rfl, rfl⟩ | ⟨ns, rfl, hrest⟩
    · exact ⟨_, _, .done, .link hn hk htrail⟩
    · rw [hrest, ← List.append_assoc] at ih
      obtain ⟨l, b, hfirst, hsecond⟩ := ih rfl
      exact ⟨l, b, .link hn hk hfirst, hsecond⟩

/-- Nothing is reached below an empty directory, if the names do not go up. -/
theorem eq_of_empty {ns : List Name} (h : Trail root links' base' links base ns)
    (hempty : ∀ n k, root.kinds base n ≠ some (some k))
    (hdown : ∀ n ∈ ns, n ≠ [Path.dot] ∧ n ≠ [Path.dot, Path.dot]) : base' = base := by
  cases h with
  | done => rfl
  | dot _ => exact absurd rfl (hdown _ List.mem_cons_self).1
  | up _ => exact absurd rfl (hdown _ List.mem_cons_self).2
  | into _ hk _ => exact absurd hk (hempty _ _)
  | link _ hk _ => exact absurd hk (hempty _ _)

end Place.Trail

namespace FileTree

section
variable {t t' : FileTree} {p q : Path} {base : List Name}

/-- A directory below an empty one is that directory itself. -/
theorem Reaches.empty_below (h : t.Reaches q base) (hempty : t.folder base = .nil)
    (hbelow : p.Below q) {base' : List Name} (hp : t.Reaches p base') : base' = base := by
  obtain ⟨-, links, htrail⟩ := h
  obtain ⟨-, links', htrail'⟩ := hp
  obtain ⟨habsolute, ns, hsteps, hup⟩ := hbelow
  have hns : ∀ n ∈ ns, n ≠ [Path.dot] ∧ n ≠ [Path.dot, Path.dot] := by
    intro n hn
    have hmem : n ∈ p.steps := hsteps ▸ List.mem_append_right _ hn
    refine ⟨by simpa using (List.mem_filter.mp hmem).2, ?_⟩
    rintro rfl
    exact hup hn
  have hsame : p.names.filter (· != [Path.dot]) = (q.names ++ ns).filter (· != [Path.dot]) := by
    have hfilter : ns.filter (· != [Path.dot]) = ns :=
      List.filter_eq_self.mpr fun n hn => by simpa using (hns n hn).1
    rw [List.filter_append, hfilter]
    exact hsteps
  obtain ⟨l, b, hfirst, hsecond⟩ := (htrail'.congr hsame).split
  rw [habsolute] at hfirst
  obtain rfl := hfirst.unique htrail
  refine hsecond.eq_of_empty (fun n k hk => ?_) hns
  obtain ⟨g, node, hg, hnode, -⟩ := find?_of_kinds hk
  rw [folder, hg, Option.getD_some] at hempty
  rw [hempty] at hnode
  cases hnode

/-- What is below an empty directory is that directory itself, and empty. -/
theorem folder?_below (hq : t.folder? q = some .nil) (hp : t.isDir p = true)
    (hbelow : p.Below q) : t.folder? p = some .nil := by
  have hdir : t.isDir q = true := by rw [isDir, hq, Option.isSome_some]
  obtain ⟨base, hreach⟩ := reaches_of_isDir hdir
  obtain ⟨base', hreach'⟩ := reaches_of_isDir hp
  have hempty : t.folder base = .nil := by
    rw [hreach.folder?_eq hdir] at hq
    exact Option.some.inj hq
  obtain rfl := hreach.empty_below hempty hbelow hreach'
  rw [hreach'.folder?_eq hp, hempty]

/-! ## making -/

theorem ensureDir_eq_ok (h : t.ensureDir p = (.ok (), t')) :
    t'.folder? p = some .nil ∨ t' = t ∧ t.isDir p = true := by
  unfold ensureDir at h
  split at h
  · next hmade =>
    cases h
    exact .inl (holds_makeDir hmade).folder?_eq
  · split at h
    · next hdir =>
      cases h
      exact .inr ⟨rfl, hdir⟩
    · cases h

/-- One step on the way up: nothing is to be done, or the directory is made, or it is there once
those above it have been made. -/
theorem makeDirsUp_cons_eq_ok {above : List Path}
    (h : t.makeDirsUp (p :: above) = (.ok (), t')) :
    t' = t ∨ t'.folder? p = some .nil ∨
      t.makeDirsUp above = (.ok (), t') ∧ t'.isDir p = true := by
  rw [makeDirsUp] at h
  split at h
  · cases h
    exact .inl rfl
  · split at h
    · split at h
      · cases h
      · next t₁ habove =>
        rcases ensureDir_eq_ok h with hempty | ⟨rfl, hdir⟩
        · exact .inr (.inl hempty)
        · exact .inr (.inr ⟨habove, hdir⟩)
    · rcases ensureDir_eq_ok h with hempty | ⟨rfl, -⟩
      · exact .inr (.inl hempty)
      · exact .inl rfl

/-- Of paths that are each below the next, either the directories were there, or that of the first
is empty when all are made. -/
theorem makeDirsUp_or_empty {above : List Path} (hbelow : (p :: above).Pairwise Path.Below)
    (h : t.makeDirsUp (p :: above) = (.ok (), t')) : t' = t ∨ t'.folder? p = some .nil := by
  induction above generalizing p with
  | nil =>
    rcases makeDirsUp_cons_eq_ok h with hsame | hempty | ⟨habove, -⟩
    · exact .inl hsame
    · exact .inr hempty
    · cases habove
      exact .inl rfl
  | cons q above ih =>
    obtain ⟨hfirst, hrest⟩ := List.pairwise_cons.mp hbelow
    rcases makeDirsUp_cons_eq_ok h with hsame | hempty | ⟨habove, hdir⟩
    · exact .inl hsame
    · exact .inr hempty
    · -- the directory is there because that above it is, which is empty if it is new
      refine (ih hrest habove).imp_right fun hq => ?_
      exact folder?_below hq hdir (hfirst q List.mem_cons_self)

/-- A path that never goes up: its directory was there, or it is empty when it has been made. -/
theorem makeDirs_or_empty (hup : [Path.dot, Path.dot] ∉ p.names)
    (h : t.makeDirs p = (.ok (), t')) : t' = t ∨ t'.folder? p = some .nil :=
  makeDirsUp_or_empty (Path.pairwise_ancestors hup) h

end

end FileTree

end PageFuzz
