import PageFuzz.Proofs.Files.Contents

/-!
# The rows of a new file

The rows of a folder are in order of their names, and brothers of one name stay in the order in
which they were made.  So a file that is made gives the folder one more row and leaves the others
as they were, one after another.

* `filter_mergeSort`       some of a list, in order, are some of the list in order;
* `Folder.groups_put`      a name that is new is one more group of rows;
* `Folder.rows_within_put` any rows among which the new one is not are as they were.
-/

namespace PageFuzz

/-! ## some of a list in order -/

section
variable {α : Type} {r : α → α → Bool}

/-- A list has one part before `a` and one after it. -/
theorem append_inj_of_le {a : α} {l₁ l₂ m₁ m₂ : List α} (h : l₁ ++ l₂ = m₁ ++ m₂)
    (hl₁ : ∀ b ∈ l₁, r a b = false) (hl₂ : ∀ b ∈ l₂, r a b = true)
    (hm₁ : ∀ b ∈ m₁, r a b = false) (hm₂ : ∀ b ∈ m₂, r a b = true) : l₁ = m₁ ∧ l₂ = m₂ := by
  have hfirst : ∀ {b₁ b₂ : List α}, (∀ b ∈ b₁, r a b = false) → (∀ b ∈ b₂, r a b = true) →
      (b₁ ++ b₂).filter (fun b => !r a b) = b₁ := by
    intro b₁ b₂ h₁ h₂
    have hall : b₁.filter (fun b => !r a b) = b₁ :=
      List.filter_eq_self.mpr fun b hb => by rw [h₁ b hb]; rfl
    have hnone : b₂.filter (fun b => !r a b) = [] :=
      List.filter_eq_nil_iff.mpr fun b hb => by rw [h₂ b hb]; exact Bool.false_ne_true
    rw [List.filter_append, hall, hnone, List.append_nil]
  have hsame : l₁ = m₁ := by rw [← hfirst hl₁ hl₂, h, hfirst hm₁ hm₂]
  subst hsame
  exact ⟨rfl, List.append_cancel_left h⟩

/-- Some of a list, put in order, are some of the list in order. -/
theorem filter_mergeSort (trans : ∀ a b c, r a b = true → r b c = true → r a c = true)
    (total : ∀ a b, (r a b || r b a) = true) (p : α → Bool) (l : List α) :
    (l.mergeSort r).filter p = (l.filter p).mergeSort r := by
  induction l with
  | nil => rw [List.mergeSort_nil, List.filter_nil, List.mergeSort_nil]
  | cons a l ih =>
    -- `a` comes after what is smaller and before the rest, with or without the others
    have hplace : ∀ {l l₁ l₂ : List α}, (a :: l).mergeSort r = l₁ ++ a :: l₂ →
        ∀ b ∈ l₂, r a b = true := by
      intro l l₁ l₂ hsort
      have hsorted := List.pairwise_mergeSort trans total (a :: l)
      rw [hsort] at hsorted
      exact (List.pairwise_cons.mp (List.pairwise_append.mp hsorted).2.1).1
    obtain ⟨l₁, l₂, hwith, hwithout, hbefore⟩ := List.mergeSort_cons trans total a l
    have hafter := hplace hwith
    rw [hwithout, List.filter_append] at ih
    rw [hwith, List.filter_append, List.filter_cons, List.filter_cons]
    cases hp : p a with
    | false => exact ih
    | true =>
      obtain ⟨m₁, m₂, hwith', hwithout', hbefore'⟩ := List.mergeSort_cons trans total a (l.filter p)
      have hafter' := hplace hwith'
      rw [hwithout'] at ih
      obtain ⟨hfirst, hlast⟩ := append_inj_of_le (r := r) ih
        (fun b hb => by simpa using hbefore b (List.mem_filter.mp hb).1)
        (fun b hb => hafter b (List.mem_filter.mp hb).1)
        (fun b hb => by simpa using hbefore' b hb) hafter'
      rw [if_pos rfl, if_pos rfl, hwith', hfirst, hlast]

end

namespace Folder

/-! ## rows of a name -/

/-- an entry and what is below it -/
def entryRows (n : Name) : Node → List (List Name × Node)
  | .dir inner => ([n], .dir inner) :: inner.rows.map fun r => (n :: r.1, r.2)
  | node => [([n], node)]

theorem groups_cons (n : Name) (node : Node) (rest : Folder) :
    (cons n node rest).groups = (n, entryRows n node) :: rest.groups := by
  cases node <;> rfl

/-- a new name comes last -/
theorem groups_put {x : Name} {f : Folder} (hx : f.find? x = none) (node : Node) :
    (f.put x node).groups = f.groups ++ [(x, entryRows x node)] := by
  induction f using consInduction with
  | nil => exact groups_cons x node nil
  | cons n old rest ih =>
    rw [find?_cons] at hx
    split at hx
    · cases hx
    · next hne =>
      rw [put_cons, if_neg hne, groups_cons, groups_cons, ih hx, List.cons_append]

/-- Another entry at a name is not seen where no difference is seen between the two. -/
theorem groups_put_congr {β : Type} {n : Name} {old new : Node} {f : Folder}
    (see : Name × List (List Name × Node) → β) (hold : f.find? n = some old)
    (hsame : see (n, entryRows n new) = see (n, entryRows n old)) :
    (f.put n new).groups.map see = f.groups.map see := by
  induction f using consInduction with
  | nil => cases hold
  | cons m node rest ih =>
    rw [find?_cons] at hold
    rw [put_cons, groups_cons]
    split at hold
    · next heq =>
      subst heq
      cases hold
      rw [if_pos rfl, groups_cons, List.map_cons, List.map_cons, hsame]
    · next hne =>
      rw [if_neg hne, groups_cons, List.map_cons, List.map_cons, ih hold]

/-! ## rows that are asked for -/

/-- which names of a group are asked for -/
def chosen (q : List Name → Bool) (g : Name × List (List Name × Node)) :
    Name × List (List Name) := (g.1, (g.2.map (·.1)).filter q)

theorem rows_filter (q : List Name → Bool) (f : Folder) :
    (f.rows.map (·.1)).filter q = inOrder (f.groups.map (chosen q)) := by
  unfold rows inOrder
  have hsort := List.map_mergeSort (r := fun a b : Name × List (List Name × Node) =>
      decide (a.1 ≤ b.1)) (s := fun a b : Name × List (List Name) => decide (a.1 ≤ b.1))
    (f := chosen q) (l := f.groups) fun _ _ _ _ => rfl
  rw [← hsort, List.flatMap_map, List.map_flatMap, List.filter_flatMap]
  rfl

/-- What is chosen of a directory is chosen of what it holds. -/
theorem chosen_dir (q : List Name → Bool) (n : Name) (inner : Folder) :
    chosen q (n, entryRows n (.dir inner)) =
      (n, [[n]].filter q ++
        ((inner.rows.map (·.1)).filter fun r => q (n :: r)).map (n :: ·)) := by
  have hnames : (entryRows n (.dir inner)).map (·.1) =
      [n] :: (inner.rows.map (·.1)).map (n :: ·) := by
    rw [entryRows, List.map_cons, List.map_map, List.map_map]
    rfl
  rw [chosen, hnames, ← List.singleton_append, List.filter_append, List.filter_map]
  rfl

/-- Groups are put in the order of their names. -/
theorem byName_trans {α : Type} (a b c : Name × List α) (hab : decide (a.1 ≤ b.1) = true)
    (hbc : decide (b.1 ≤ c.1) = true) : decide (a.1 ≤ c.1) = true :=
  decide_eq_true (List.le_trans (of_decide_eq_true hab) (of_decide_eq_true hbc))

theorem byName_total {α : Type} (a b : Name × List α) :
    (decide (a.1 ≤ b.1) || decide (b.1 ≤ a.1)) = true := by
  rw [Bool.or_eq_true, decide_eq_true_eq, decide_eq_true_eq]
  exact List.le_total a.1 b.1

/-- A group without rows is not seen. -/
theorem inOrder_concat_nil {α : Type} (gs : List (Name × List α)) (x : Name) :
    inOrder (gs ++ [(x, [])]) = inOrder gs := by
  -- the rows of some groups are those of the groups that have rows
  have hnonempty : ∀ hs : List (Name × List α),
      hs.flatMap (·.2) = (hs.filter fun g => !g.2.isEmpty).flatMap (·.2) := by
    intro hs
    induction hs with
    | nil => rfl
    | cons g hs ih =>
      obtain ⟨n, rows⟩ := g
      cases rows with
      | nil => exact ih
      | cons r rs =>
        rw [List.filter_cons_of_pos rfl, List.flatMap_cons, List.flatMap_cons, ih]
  unfold inOrder
  rw [hnonempty, filter_mergeSort byName_trans byName_total, List.filter_append]
  rw [hnonempty (gs.mergeSort _), filter_mergeSort byName_trans byName_total]
  show List.flatMap _ (List.mergeSort (_ ++ []) _) = _
  rw [List.append_nil]

/-- Any rows among which that of the new file is not are the rows that they were. -/
theorem rows_within_put {q : List Name → Bool} {f g : Folder} {ns : List Name} {x : Name}
    (hg : f.at? ns = some g) (hfree : g.find? x = none) (hq : q (ns ++ [x]) = false) (mark : Nat)
    (content : ByteArray) :
    ((f.within (put x (.file mark content)) ns).rows.map (·.1)).filter q =
      (f.rows.map (·.1)).filter q := by
  induction ns generalizing f q with
  | nil =>
    cases hg
    rw [within, rows_filter, rows_filter, groups_put hfree, List.map_append, List.map_singleton]
    have hnone : chosen q (x, entryRows x (.file mark content)) = (x, []) := by
      have hnot : ¬ q [x] = true := by simpa using hq
      show (x, List.filter q [[x]]) = (x, [])
      rw [List.filter_cons_of_neg hnot, List.filter_nil]
    rw [hnone, inOrder_concat_nil]
  | cons n ns ih =>
    rw [at?] at hg
    split at hg
    · next inner hn =>
      have hinner := ih (q := fun r => q (n :: r)) hg hq
      rw [within, hn]
      dsimp only
      rw [rows_filter, rows_filter, groups_put_congr (chosen q) hn]
      rw [chosen_dir, chosen_dir, hinner]
    · cases hg

end Folder

end PageFuzz
