import PageFuzz.Proofs.Derivation.Language

/-!
# How often a mark stands in what is derived

Leaves are written with a space after each, so a mark without spaces stands in a text as often as it
stands in the leaves.  How often a name leads to it is then a matter of the alternatives, if each
alternative of a name leads to it equally often.

* `occurrences_spell`          a mark in a text of leaves;
* `Weighed`, `sum_leaves`      a weight for every name that its alternatives bear out, and what it
                               says of the leaves of every derivation;
* `occurrences_of_generate`    a mark in a text that was generated.
-/

namespace PageFuzz

namespace Text

/-! ## marks in a text -/

/-- the number of places at which a mark begins -/
def occurrences (mark text : List Char) : Nat := text.tails.countP mark.isPrefixOf

variable {mark : List Char}

theorem not_prefix_nil (hmark : mark ≠ []) : ¬ mark.isPrefixOf [] = true := by
  rw [List.isPrefixOf_iff_prefix, List.prefix_nil]
  exact hmark

theorem occurrences_nil (hmark : mark ≠ []) : occurrences mark [] = 0 :=
  List.countP_cons_of_neg (not_prefix_nil hmark)

theorem occurrences_cons (c : Char) (text : List Char) :
    occurrences mark (c :: text) =
      occurrences mark text + if mark.isPrefixOf (c :: text) then 1 else 0 := by
  unfold occurrences
  rw [List.tails_cons, List.countP_cons]

/-- a mark that does not occur -/
theorem occurrences_eq_zero_iff {text : List Char} :
    occurrences mark text = 0 ↔ ¬ mark <:+: text := by
  unfold occurrences
  rw [List.countP_eq_zero, List.infix_iff_prefix_suffix]
  constructor
  · rintro h ⟨rest, hbegin, htail⟩
    exact h rest ((List.mem_tails _ _).mpr htail) (List.isPrefixOf_iff_prefix.mpr hbegin)
  · intro h rest hrest hbegin
    exact h ⟨rest, List.isPrefixOf_iff_prefix.mp hbegin, (List.mem_tails _ _).mp hrest⟩

theorem occurrences_of_notMem {c : Char} (hc : c ∈ mark) {text : List Char} (h : c ∉ text) :
    occurrences mark text = 0 :=
  occurrences_eq_zero_iff.mpr fun hin => h (hin.subset hc)

/-- A mark without spaces that begins before a space ends before it. -/
theorem prefix_before_space (hspace : ' ' ∉ mark) (text rest : List Char) :
    mark <+: text ++ ' ' :: rest ↔ mark <+: text := by
  refine ⟨fun h => ?_, fun h => h.trans (List.prefix_append _ _)⟩
  rcases List.prefix_or_prefix_of_prefix h (List.prefix_append text (' ' :: rest)) with hle | hge
  · exact hle
  · -- a mark that goes on beyond the text goes on with the space
    obtain ⟨more, rfl⟩ := hge
    rw [List.prefix_append_right_inj] at h
    rcases List.prefix_cons_iff.mp h with rfl | ⟨tail, rfl, -⟩
    · rw [List.append_nil]
    · exact absurd (List.mem_append_right _ List.mem_cons_self) hspace

theorem occurrences_append_space (hmark : mark ≠ []) (hspace : ' ' ∉ mark)
    (text rest : List Char) :
    occurrences mark (text ++ ' ' :: rest) = occurrences mark text + occurrences mark rest := by
  have hbegin : ∀ front : List Char,
      mark.isPrefixOf (front ++ ' ' :: rest) = mark.isPrefixOf front := by
    intro front
    rw [Bool.eq_iff_iff, List.isPrefixOf_iff_prefix, List.isPrefixOf_iff_prefix]
    exact prefix_before_space hspace front rest
  induction text with
  | nil =>
    have hfirst := hbegin []
    rw [List.nil_append] at hfirst ⊢
    rw [occurrences_cons, hfirst, if_neg (not_prefix_nil hmark), occurrences_nil hmark,
      Nat.zero_add, Nat.add_zero]
  | cons c text ih =>
    have hfirst := hbegin (c :: text)
    rw [List.cons_append] at hfirst ⊢
    rw [occurrences_cons, occurrences_cons, ih, hfirst]
    omega

/-- A mark without spaces lies within one leaf. -/
theorem occurrences_spell (hmark : mark ≠ []) (hspace : ' ' ∉ mark) (leaves : List String) :
    occurrences mark (spell leaves).toList =
      (leaves.map fun leaf => occurrences mark leaf.toList).sum := by
  induction leaves with
  | nil => exact occurrences_nil hmark
  | cons leaf leaves ih =>
    have hsplit : (spell (leaf :: leaves)).toList =
        leaf.toList ++ ' ' :: (spell leaves).toList := by
      rw [spell_cons, String.toList_append, String.toList_append, List.append_assoc]
      rfl
    rw [hsplit, occurrences_append_space hmark hspace, ih, List.map_cons, List.sum_cons]

end Text

/-! ## weights -/

/-- the weight of a symbol, from weights of texts and of names -/
def Symbol.weight (ofText ofName : String → Nat) : Symbol → Nat
  | .terminal text => ofText text
  | .nonterminal name => ofName name

def Alternative.weight (ofText ofName : String → Nat) : Alternative → Nat
  | .literal text => ofText text
  | .sequence syms => (syms.map (Symbol.weight ofText ofName)).sum

namespace Grammar

/-- Each alternative of a name weighs what the name does. -/
def Weighed (g : Grammar) (ofText ofName : String → Nat) : Prop :=
  ∀ name alts, g.alternatives? name = some alts → ∀ a ∈ alts,
    a.weight ofText ofName = ofName name

section
variable {g : Grammar} {ofText ofName : String → Nat}

mutual

/-- The leaves of a derivation weigh what its name does, whatever was chosen. -/
theorem Tree.sum_leaves (h : g.Weighed ofText ofName) {name : String} (tree : Tree g name) :
    (tree.leaves.map ofText).sum = ofName name := by
  match tree with
  | .literal text alts hname index chosen =>
    have hweight := h name alts hname _ (List.get_mem alts index)
    rw [chosen] at hweight
    rw [← hweight]
    exact List.sum_singleton
  | .sequence alts hname index chosen children =>
    have hweight := h name alts hname _ (List.get_mem alts index)
    rw [chosen] at hweight
    rw [← hweight]
    exact Forest.sum_leaves h children

theorem Forest.sum_leaves (h : g.Weighed ofText ofName) {syms : List Symbol}
    (forest : Forest g syms) :
    (forest.leaves.map ofText).sum = (syms.map (Symbol.weight ofText ofName)).sum := by
  match forest with
  | .nil => rfl
  | .terminal text rest =>
    unfold Forest.leaves
    rw [List.map_cons, List.sum_cons, Forest.sum_leaves h rest, List.map_cons, List.sum_cons]
    rfl
  | .nonterminal tree rest =>
    unfold Forest.leaves
    rw [List.map_append, List.sum_append, Tree.sum_leaves h tree, Forest.sum_leaves h rest,
      List.map_cons, List.sum_cons]
    rfl

end

end

end Grammar

/-- Every text that is derived from a name has a mark as often as the name leads to it. -/
theorem Expander.occurrences_of_generate {g : Grammar} {mark : List Char} {ofName : String → Nat}
    (h : g.Weighed (fun text => Text.occurrences mark text.toList) ofName) (hmark : mark ≠ [])
    (hspace : ' ' ∉ mark) {limits : Limits} {σ : Type} {c : Chooser σ} {start t : String}
    {s s' : σ} (hrun : (Expander.mk g limits).generate c start s = (.ok t, s')) :
    Text.occurrences mark t.toList = ofName start := by
  obtain ⟨tree, -, -, htext, -⟩ := tree_of_generate hrun
  have hleaves := tree.sum_leaves h
  rw [htext, Text.occurrences_spell hmark hspace, hleaves]

end PageFuzz
