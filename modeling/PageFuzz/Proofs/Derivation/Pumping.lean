import Mathlib
import PageFuzz.Proofs.Derivation.Language

/-!
# Trees in which no name lies below itself

Where a name lies below itself in a derivation tree, the lower tree can stand in the place of the
upper one: it is at the same name, it nests no deeper and it writes no more.  So a name that can be
derived at all has a tree in which no sequence of a rule lies inside another one of the same rule,
and such a tree nests no deeper than there are rules.

* `Tree.Fresh`              no sequence is at a name of a given list, or at a name above it;
* `Tree.fresh_or_subtree`   a tree avoids one name more, or has a tree at that name inside;
* `Tree.exists_fresh`       a tree that is no larger and repeats no name on the way down;
* `Tree.nesting_le_card`    such a tree nests no deeper than there are names that it may use;
* `derives_iff_tree`        some chooser succeeds where there is a tree within the limits;
* `derives_iff_of_size`     a depth of the number of rules is as good as any.
-/

namespace PageFuzz

open Grammar

theorem utf8ByteSize_spell_cons (leaf : String) (leaves : List String) :
    (spell (leaf :: leaves)).utf8ByteSize =
      (leaf ++ " ").utf8ByteSize + (spell leaves).utf8ByteSize := by
  rw [spell_cons, String.utf8ByteSize_append]

theorem utf8ByteSize_spell_of_sublist {a b : List String} (h : a.Sublist b) :
    (spell a).utf8ByteSize ≤ (spell b).utf8ByteSize := by
  induction h with
  | slnil => exact Nat.le_refl _
  | cons leaf _ ih =>
    rw [utf8ByteSize_spell_cons]
    exact Nat.le_add_left_of_le ih
  | cons_cons leaf _ ih =>
    rw [utf8ByteSize_spell_cons, utf8ByteSize_spell_cons]
    exact Nat.add_le_add_left ih _

namespace Grammar

variable {g : Grammar}

mutual

/-- no sequence of the tree is at a name in `seen` or at the name of a sequence around it -/
def Tree.Fresh (seen : List String) {name : String} : Tree g name → Prop
  | .literal _ _ _ _ _ => True
  | .sequence _ _ _ _ children => name ∉ seen ∧ children.Fresh (name :: seen)

def Forest.Fresh (seen : List String) {syms : List Symbol} : Forest g syms → Prop
  | .nil => True
  | .terminal _ rest => rest.Fresh seen
  | .nonterminal tree rest => tree.Fresh seen ∧ rest.Fresh seen

end

mutual

theorem Tree.Fresh.of_subset {seen fewer : List String} (hsub : fewer ⊆ seen) {name : String}
    (tree : Tree g name) (h : tree.Fresh seen) : tree.Fresh fewer := by
  match tree with
  | .literal _ _ _ _ _ => exact trivial
  | .sequence _ _ _ _ children =>
    obtain ⟨hname, hchildren⟩ := h
    exact ⟨fun hmem => hname (hsub hmem),
      Forest.Fresh.of_subset (List.cons_subset_cons name hsub) children hchildren⟩

theorem Forest.Fresh.of_subset {seen fewer : List String} (hsub : fewer ⊆ seen)
    {syms : List Symbol} (forest : Forest g syms) (h : forest.Fresh seen) :
    forest.Fresh fewer := by
  match forest with
  | .nil => exact trivial
  | .terminal _ rest => exact Forest.Fresh.of_subset hsub rest h
  | .nonterminal tree rest =>
    exact ⟨Tree.Fresh.of_subset hsub tree h.1, Forest.Fresh.of_subset hsub rest h.2⟩

end

/-- A tree at `name` that could stand in the place of something that nests and writes so much. -/
structure Inside (seen : List String) (nesting : Nat) (leaves : List String) {name : String}
    (tree : Tree g name) : Prop where
  fresh : tree.Fresh seen
  nesting_le : tree.nesting ≤ nesting
  leaves_sublist : tree.leaves.Sublist leaves

theorem Inside.mono {seen fewer leaves more : List String} {nesting deeper : Nat} {name : String}
    {tree : Tree g name} (h : Inside seen nesting leaves tree) (hsub : fewer ⊆ seen)
    (hle : nesting ≤ deeper) (hleaves : leaves.Sublist more) : Inside fewer deeper more tree where
  fresh := Tree.Fresh.of_subset hsub tree h.fresh
  nesting_le := Nat.le_trans h.nesting_le hle
  leaves_sublist := h.leaves_sublist.trans hleaves

mutual

/-- A tree avoids one name more, or a tree at that name is inside it. -/
theorem Tree.fresh_or_subtree (other : String) {seen : List String} {name : String}
    (tree : Tree g name) (h : tree.Fresh seen) :
    tree.Fresh (other :: seen) ∨
      ∃ sub : Tree g other, Inside seen tree.nesting tree.leaves sub := by
  match tree with
  | .literal _ _ _ _ _ => exact .inl trivial
  | .sequence alts rule index chosen children =>
    by_cases hname : name = other
    · subst hname
      exact .inr ⟨.sequence alts rule index chosen children, h, Nat.le_refl _, List.Sublist.refl _⟩
    · obtain ⟨hfree, hchildren⟩ := h
      rcases Forest.fresh_or_subtree other children hchildren with hfresh | ⟨sub, hsub⟩
      · refine .inl ⟨?_, Forest.Fresh.of_subset ?_ children hfresh⟩
        · rw [List.mem_cons, not_or]
          exact ⟨hname, hfree⟩
        · exact (List.Perm.swap other name seen).subset
      · exact .inr ⟨sub, hsub.mono (List.subset_cons_self name seen) (Nat.le_succ _)
          (List.Sublist.refl _)⟩

theorem Forest.fresh_or_subtree (other : String) {seen : List String} {syms : List Symbol}
    (forest : Forest g syms) (h : forest.Fresh seen) :
    forest.Fresh (other :: seen) ∨
      ∃ sub : Tree g other, Inside seen forest.nesting forest.leaves sub := by
  match forest with
  | .nil => exact .inl trivial
  | .terminal text rest =>
    refine (Forest.fresh_or_subtree other rest h).imp_right ?_
    rintro ⟨sub, hsub⟩
    exact ⟨sub, hsub.mono (List.Subset.refl _) (Nat.le_refl _) (List.sublist_cons_self text _)⟩
  | .nonterminal tree rest =>
    rcases Tree.fresh_or_subtree other tree h.1 with htree | ⟨sub, hsub⟩
    · rcases Forest.fresh_or_subtree other rest h.2 with hrest | ⟨sub, hsub⟩
      · exact .inl ⟨htree, hrest⟩
      · exact .inr ⟨sub, hsub.mono (List.Subset.refl _) (Nat.le_max_right _ _)
          (List.sublist_append_right _ _)⟩
    · exact .inr ⟨sub, hsub.mono (List.Subset.refl _) (Nat.le_max_left _ _)
        (List.sublist_append_left _ _)⟩

end

mutual

/-- Every tree can be made smaller until no name lies below itself. -/
theorem Tree.exists_fresh {name : String} (tree : Tree g name) :
    ∃ small : Tree g name, Inside [] tree.nesting tree.leaves small := by
  match tree with
  | .literal text alts rule index chosen =>
    exact ⟨.literal text alts rule index chosen, trivial, Nat.le_refl _, List.Sublist.refl _⟩
  | .sequence alts rule index chosen children =>
    obtain ⟨forest, hfresh, hnesting, hleaves⟩ := Forest.exists_fresh children
    -- what is left below is fresh, so only the name of the root itself can occur once more
    rcases Forest.fresh_or_subtree name forest hfresh with hroot | ⟨sub, hsub⟩
    · exact ⟨.sequence alts rule index chosen forest, ⟨List.not_mem_nil, hroot⟩,
        Nat.succ_le_succ hnesting, hleaves⟩
    · exact ⟨sub, hsub.mono (List.Subset.refl _) (Nat.le_succ_of_le hnesting) hleaves⟩

theorem Forest.exists_fresh {syms : List Symbol} (forest : Forest g syms) :
    ∃ small : Forest g syms, small.Fresh [] ∧ small.nesting ≤ forest.nesting ∧
      small.leaves.Sublist forest.leaves := by
  match forest with
  | .nil => exact ⟨.nil, trivial, Nat.le_refl _, List.Sublist.refl _⟩
  | .terminal text rest =>
    obtain ⟨small, hfresh, hnesting, hleaves⟩ := Forest.exists_fresh rest
    exact ⟨.terminal text small, hfresh, hnesting, hleaves.cons_cons text⟩
  | .nonterminal tree rest =>
    obtain ⟨first, hfirst⟩ := Tree.exists_fresh tree
    obtain ⟨small, hfresh, hnesting, hleaves⟩ := Forest.exists_fresh rest
    exact ⟨.nonterminal first small, ⟨hfirst.fresh, hfresh⟩,
      max_le_max hfirst.nesting_le hnesting, hfirst.leaves_sublist.append hleaves⟩

end

mutual

/-- Each sequence around another one uses up a name. -/
theorem Tree.nesting_le_card {seen : List String} {name : String} (tree : Tree g name)
    (h : tree.Fresh seen) : tree.nesting ≤ (g.names.toFinset \ seen.toFinset).card := by
  match tree with
  | .literal _ _ _ _ _ => exact Nat.zero_le _
  | .sequence alts rule _ _ children =>
    obtain ⟨hfree, hchildren⟩ := h
    have hbelow := Forest.nesting_le_card children hchildren
    have hname : name ∈ g.names.toFinset \ seen.toFinset := by
      rw [Finset.mem_sdiff, List.mem_toFinset, List.mem_toFinset]
      exact ⟨List.mem_map.mpr ⟨_, mem_of_lookup rule, rfl⟩, hfree⟩
    have hless : (g.names.toFinset \ (name :: seen).toFinset).card <
        (g.names.toFinset \ seen.toFinset).card := by
      rw [List.toFinset_cons, Finset.sdiff_insert]
      exact Finset.card_erase_lt_of_mem hname
    exact Nat.lt_of_le_of_lt hbelow hless

theorem Forest.nesting_le_card {seen : List String} {syms : List Symbol} (forest : Forest g syms)
    (h : forest.Fresh seen) : forest.nesting ≤ (g.names.toFinset \ seen.toFinset).card := by
  match forest with
  | .nil => exact Nat.zero_le _
  | .terminal _ rest => exact Forest.nesting_le_card rest h
  | .nonterminal tree rest =>
    exact Nat.max_le.mpr ⟨Tree.nesting_le_card tree h.1, Forest.nesting_le_card rest h.2⟩

end

theorem Tree.Fresh.nesting_le_size {name : String} {tree : Tree g name} (h : tree.Fresh []) :
    tree.nesting ≤ g.size := by
  have hcard := tree.nesting_le_card h
  rw [List.toFinset_nil, Finset.sdiff_empty] at hcard
  calc tree.nesting ≤ g.names.toFinset.card := hcard
    _ ≤ g.names.length := g.names.toFinset_card_le
    _ = g.size := List.length_map _

end Grammar

namespace Expander

/-- some chooser brings the derivation from the start symbol to its end -/
def Derives (e : Expander) (start : String) : Prop :=
  ∃ (σ : Type) (c : Chooser σ) (s s' : σ) (text : String), e.generate c start s = (.ok text, s')

theorem derives_iff_tree {e : Expander} {start : String} :
    e.Derives start ↔ ∃ tree : e.grammar.Tree start, tree.nesting ≤ e.limits.maxDepth ∧
      (spell tree.leaves).utf8ByteSize ≤ e.limits.maxOutput := by
  constructor
  · rintro ⟨σ, c, s, s', text, h⟩
    obtain ⟨tree, _, hnesting, rfl, hsize, -⟩ := tree_of_generate h
    exact ⟨tree, hnesting, hsize⟩
  · rintro ⟨tree, hnesting, hsize⟩
    exact ⟨_, _, _, _, _, generate_of_tree tree hnesting hsize⟩

theorem Derives.mono {g : Grammar} {lo hi : Limits} {start : String}
    (h : (Expander.mk g lo).Derives start) (hdepth : lo.maxDepth ≤ hi.maxDepth)
    (hout : lo.maxOutput ≤ hi.maxOutput) : (Expander.mk g hi).Derives start := by
  obtain ⟨tree, hnesting, hsize⟩ := derives_iff_tree.mp h
  exact derives_iff_tree.mpr ⟨tree, Nat.le_trans hnesting hdepth, Nat.le_trans hsize hout⟩

/-- A depth of the number of rules is as good as any. -/
theorem derives_iff_of_size (g : Grammar) (depth bytes : Nat) (start : String) :
    (Expander.mk g ⟨depth, bytes⟩).Derives start ↔
      (Expander.mk g ⟨min depth g.size, bytes⟩).Derives start := by
  constructor
  · intro h
    obtain ⟨tree, hnesting, hsize⟩ := derives_iff_tree.mp h
    obtain ⟨small, hfresh, hsmaller, hleaves⟩ := tree.exists_fresh
    refine derives_iff_tree.mpr ⟨small, Nat.le_min.mpr ⟨?_, hfresh.nesting_le_size⟩, ?_⟩
    · exact Nat.le_trans hsmaller hnesting
    · exact Nat.le_trans (utf8ByteSize_spell_of_sublist hleaves) hsize
  · exact fun h => h.mono (Nat.min_le_left _ _) (Nat.le_refl _)

end Expander

end PageFuzz
