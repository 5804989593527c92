import Mathlib
import PageFuzz.Proofs.Derivation.Twins
import PageFuzz.Proofs.Page.Tables

/-!
# The root element of a page

In both flavours the start leads to the root alone, and the root stands between its tags, so a page
begins with the one and ends with the other.

* `Rooted`             grammars of that form;
* `rooted_of_ends`     the rows of the tables have it;
* `page_root`, `root_forest`    what a page consists of;
* `marked_page`, `leaves_page`, `spell_page_ends`    the ends of what is derived.
-/

namespace PageFuzz

theorem prefix_spell_cons (leaf : String) (leaves : List String) :
    leaf.toList <+: (spell (leaf :: leaves)).toList := by
  rw [spell_cons, String.toList_append, String.toList_append, List.append_assoc]
  exact List.prefix_append _ _

theorem suffix_spell_concat (leaves : List String) (leaf : String) :
    (leaf ++ " ").toList <:+ (spell (leaves ++ [leaf])).toList := by
  have hend : (spell (leaves ++ [leaf])).toList =
      (spell leaves).toList ++ (leaf ++ " ").toList := by
    rw [spell_append, spell_singleton, String.toList_append]
  rw [hend]
  exact List.suffix_append _ _

/-- What a row of symbols ends with is written last. -/
theorem Grammar.Forest.leaves_concat {g : Grammar} {syms : List Symbol} {text : String}
    (forest : g.Forest (syms ++ [.terminal text])) : ∃ front, forest.leaves = front ++ [text] := by
  induction syms with
  | nil =>
    match forest with
    | .terminal _ .nil => exact ⟨[], rfl⟩
  | cons sym syms ih =>
    match sym, forest with
    | .terminal piece, .terminal _ rest =>
      obtain ⟨front, hfront⟩ := ih rest
      exact ⟨piece :: front, congrArg (piece :: ·) hfront⟩
    | .nonterminal name, .nonterminal tree rest =>
      obtain ⟨front, hfront⟩ := ih rest
      refine ⟨tree.leaves ++ front, ?_⟩
      unfold Forest.leaves
      rw [hfront, List.append_assoc]

namespace Page

open Draft

/-! ## names and other words -/

theorem classify_of_contains {names : List String} {name : String} (h : name ∈ names) :
    classify names name = .nonterminal name := if_pos (List.contains_iff_mem.mpr h)

/-- what has other letters than a name is written as it stands -/
theorem classify_of_letters {names : List String}
    (hnames : ∀ name ∈ names, ∀ c ∈ name.toList, isNameChar c = true) {t : String}
    (h : t.toList.all isNameChar = false) : classify names t = .terminal t := by
  have hnot : t ∉ names := fun hmem =>
    Bool.false_ne_true (h.symm.trans (List.all_eq_true.mpr (hnames t hmem)))
  exact if_neg (mt List.contains_iff_mem.mp hnot)

/-! ## rooted grammars -/

/-- the start and the root have only sequences, of the root alone and between its tags -/
structure Rooted (g : Grammar) : Prop where
  start : ∀ alts, g.alternatives? startSymbol = some alts → ∀ a ∈ alts,
    a = .sequence [.nonterminal rootRule]
  root : ∀ alts, g.alternatives? rootRule = some alts → ∀ a ∈ alts, ∃ opening syms,
    a = .sequence (.terminal opening :: (syms ++ [.terminal rootEnd])) ∧
      rootOpening.toList <+: opening.toList

theorem rooted_of_ends {g : Grammar} {names : List String}
    (hnames : ∀ name ∈ names, ∀ c ∈ name.toList, isNameChar c = true) (hroot : rootRule ∈ names)
    (h : ∀ name ∈ [startSymbol, rootRule], ∀ alts, g.alternatives? name = some alts → ∀ a ∈ alts,
      ∃ ts, a = .sequence (ts.map (classify names)) ∧ Ends name ts) : Rooted g where
  start alts halts a ha := by
    obtain ⟨ts, rfl, hends⟩ := h startSymbol List.mem_cons_self alts halts a ha
    rw [hends.start rfl, List.map_singleton, classify_of_contains hroot]
  root alts halts a ha := by
    obtain ⟨ts, rfl, hends⟩ := h rootRule (by decide) alts halts a ha
    obtain ⟨opening, inner, rfl, hopening⟩ := hends.root rfl
    have htag : opening.toList.all isNameChar = false :=
      List.all_eq_false.mpr ⟨'<', hopening.subset (by decide), by decide⟩
    have hend : rootEnd.toList.all isNameChar = false := by decide
    refine ⟨opening, inner.map (classify names), ?_, hopening⟩
    rw [List.map_cons, List.map_append, List.map_singleton, classify_of_letters hnames htag,
      classify_of_letters hnames hend]

namespace Rooted

variable {g : Grammar}

/-- the root element stands between its tags -/
theorem root_forest (h : Rooted g) (root : g.Tree rootRule) :
    ∃ opening syms, ∃ forest : g.Forest (syms ++ [.terminal rootEnd]),
      rootOpening.toList <+: opening.toList ∧ root.leaves = opening :: forest.leaves ∧
        ∀ rule, root.marked rule = some opening :: forest.marked rule := by
  match root with
  | .literal text alts halts index chosen =>
    obtain ⟨opening, syms, ha, -⟩ := h.root alts halts _ (List.get_mem alts index)
    rw [chosen] at ha
    cases ha
  | .sequence alts halts index chosen children =>
    obtain ⟨opening, syms, ha, hopening⟩ := h.root alts halts _ (List.get_mem alts index)
    rw [chosen] at ha
    obtain rfl := Alternative.sequence.inj ha
    match children with
    | .terminal _ forest => exact ⟨opening, syms, forest, hopening, rfl, fun rule => rfl⟩

/-- a page is its root element -/
theorem page_root (h : Rooted g) (tree : g.Tree startSymbol) :
    ∃ root : g.Tree rootRule, tree.leaves = root.leaves ∧
      ∀ rule, tree.marked rule = root.marked rule := by
  match tree with
  | .literal text alts halts index chosen =>
    have ha := h.start alts halts _ (List.get_mem alts index)
    rw [chosen] at ha
    cases ha
  | .sequence alts halts index chosen children =>
    have ha := h.start alts halts _ (List.get_mem alts index)
    rw [chosen] at ha
    obtain rfl := Alternative.sequence.inj ha
    match children with
    | .nonterminal root .nil =>
      exact ⟨root, List.append_nil _, fun rule => List.append_nil _⟩

theorem marked_page (h : Rooted g) (rule : String) (tree : g.Tree startSymbol) :
    ∃ opening inner, tree.marked rule = some opening :: (inner ++ [some rootEnd]) ∧
      rootOpening.toList <+: opening.toList := by
  obtain ⟨root, -, hroot⟩ := h.page_root tree
  obtain ⟨opening, syms, forest, hopening, -, hmarked⟩ := h.root_forest root
  obtain ⟨inner, hinner⟩ := forest.marked_concat rule
  refine ⟨opening, inner, ?_, hopening⟩
  rw [hroot, hmarked, hinner]

theorem leaves_page (h : Rooted g) (tree : g.Tree startSymbol) :
    ∃ opening inner, tree.leaves = opening :: (inner ++ [rootEnd]) ∧
      rootOpening.toList <+: opening.toList := by
  obtain ⟨root, hroot, -⟩ := h.page_root tree
  obtain ⟨opening, syms, forest, hopening, hleaves, -⟩ := h.root_forest root
  obtain ⟨inner, hinner⟩ := forest.leaves_concat
  refine ⟨opening, inner, ?_, hopening⟩
  rw [hroot, hleaves, hinner]

/-- the text of a page begins with the one tag and ends with the other -/
theorem spell_page_ends (h : Rooted g) (tree : g.Tree startSymbol) :
    rootOpening.toList <+: (spell tree.leaves).toList ∧
      (rootEnd ++ " ").toList <:+ (spell tree.leaves).toList := by
  obtain ⟨opening, inner, hleaves, hopening⟩ := h.leaves_page tree
  rw [hleaves]
  exact ⟨hopening.trans (prefix_spell_cons opening _), suffix_spell_concat (opening :: inner) _⟩

end Rooted

end Page

end PageFuzz
