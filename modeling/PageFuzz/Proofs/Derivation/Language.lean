import Mathlib
import PageFuzz.Derivation.Tree
import PageFuzz.Proofs.Derivation.Refinement
import PageFuzz.Proofs.Grammar.Build

/-!
# What a grammar derives

The texts that `Expander.generate` returns are those of the derivation trees within the limits.

* `Wrote`                  what a stretch of a derivation has written, and with which draws;
* `tree_of_deriveName`     a name that was expanded has a tree;
* `deriveName_of_tree`     the answers of a tree lead through the tree;
* `generate_of_tree`       and to its text;
* `words_spell`            leaves that are words are read back from their text;
* `isWord_of_mem_leaves`   the leaves are words, where all rules are in the notation;
* `generate_eq_language`   the trees within the limits and the texts.
-/

namespace PageFuzz

open Grammar

theorem spell_cons (leaf : String) (leaves : List String) :
    spell (leaf :: leaves) = leaf ++ " " ++ spell leaves := by
  unfold spell
  rw [List.map_cons, String.join_cons]

theorem spell_append (a b : List String) : spell (a ++ b) = spell a ++ spell b := by
  unfold spell
  rw [List.map_append, String.join_append]

theorem spell_singleton (leaf : String) : spell [leaf] = leaf ++ " " := by
  rw [spell_cons, spell_nil, String.append_empty]

theorem Limits.append_of_le {l : Limits} {text piece : String}
    (h : (text ++ spell [piece]).utf8ByteSize ≤ l.maxOutput) :
    l.append text piece = .ok (text ++ spell [piece]) := by
  rw [spell_singleton, ← String.append_assoc] at h ⊢
  unfold Limits.append
  rw [if_neg (Nat.not_lt.mpr h)]

theorem le_of_spell_append {text : String} {a b : List String} {n : Nat}
    (h : (text ++ spell (a ++ b)).utf8ByteSize ≤ n) : (text ++ spell a).utf8ByteSize ≤ n := by
  rw [spell_append, ← String.append_assoc, String.utf8ByteSize_append] at h
  omega

namespace Expander

/-! ## from a text to its tree -/

/-- A stretch of a derivation from one text and its draws to another. -/
structure Wrote (limits : Limits) (leaves : List String) (nodes : List Draw)
    (text text' : String) (seen seen' : Array Draw) : Prop where
  text_eq : text' = text ++ spell leaves
  size_le : text.utf8ByteSize ≤ limits.maxOutput → text'.utf8ByteSize ≤ limits.maxOutput
  nodes_eq : seen'.toList.map Draw.clamped = seen.toList.map Draw.clamped ++ nodes

namespace Wrote

variable {limits : Limits}

theorem nothing (text : String) (seen : Array Draw) : Wrote limits [] [] text text seen seen where
  text_eq := by rw [spell_nil, String.append_empty]
  size_le h := h
  nodes_eq := (List.append_nil _).symm

theorem trans {leaves leaves' : List String} {nodes nodes' : List Draw} {t u v : String}
    {a b c : Array Draw} (h : Wrote limits leaves nodes t u a b)
    (h' : Wrote limits leaves' nodes' u v b c) :
    Wrote limits (leaves ++ leaves') (nodes ++ nodes') t v a c where
  text_eq := by rw [h'.text_eq, h.text_eq, spell_append, String.append_assoc]
  size_le hsize := h'.size_le (h.size_le hsize)
  nodes_eq := by rw [h'.nodes_eq, h.nodes_eq, List.append_assoc]

theorem leaf {text piece text' : String} (seen : Array Draw)
    (h : limits.append text piece = .ok text') : Wrote limits [piece] [] text text' seen seen := by
  obtain ⟨htext, hsize⟩ := Limits.append_eq_ok h
  refine ⟨?_, fun _ => hsize, (List.append_nil _).symm⟩
  rw [htext, spell_singleton, String.append_assoc]

theorem draw (text : String) (seen : Array Draw) (d : Draw) :
    Wrote limits [] [d.clamped] text text seen (seen.push d) where
  text_eq := by rw [spell_nil, String.append_empty]
  size_le h := h
  nodes_eq := by rw [Array.toList_push, List.map_append, List.map_singleton]

end Wrote

section
variable {σ : Type} {e : Expander} {c : Chooser σ}

/-- A sequence that was gone through has a forest, if each reference in it has a tree. -/
theorem forest_of_deriveSequence {limits : Limits} {g : Grammar} {levels : Nat}
    {sub : String → String → σ × Array Draw → Except ExpansionError String × (σ × Array Draw)}
    (hsub : ∀ {name text text' s s'}, sub name text s = (.ok text', s') →
      ∃ tree : Tree g name, tree.nesting ≤ levels ∧
        Wrote limits tree.leaves tree.draws text text' s.2 s'.2)
    {syms : List Symbol} {text text' : String} {s s' : σ × Array Draw}
    (h : deriveSequence limits sub syms text s = (.ok text', s')) :
    ∃ forest : Forest g syms, forest.nesting ≤ levels ∧
      Wrote limits forest.leaves forest.draws text text' s.2 s'.2 := by
  induction syms generalizing text s with
  | nil =>
    cases h
    exact ⟨.nil, Nat.zero_le _, .nothing _ _⟩
  | cons sym syms ih =>
    cases sym with
    | terminal piece =>
      rw [deriveSequence_terminal] at h
      obtain ⟨u, s₁, hpiece, hrest⟩ := andThen_eq_ok h
      obtain ⟨happend, rfl⟩ := Prod.mk.inj hpiece
      obtain ⟨forest, hlevels, hwrote⟩ := ih hrest
      exact ⟨.terminal piece forest, hlevels, (Wrote.leaf s.2 happend).trans hwrote⟩
    | nonterminal name =>
      rw [deriveSequence_nonterminal] at h
      obtain ⟨u, s₁, hname, hrest⟩ := andThen_eq_ok h
      obtain ⟨tree, htree, hfirst⟩ := hsub hname
      obtain ⟨forest, hlevels, hwrote⟩ := ih hrest
      exact ⟨.nonterminal tree forest, Nat.max_le.mpr ⟨htree, hlevels⟩, hfirst.trans hwrote⟩

/-- A name that was expanded has a tree.  The induction is on the levels of depth that are left. -/
theorem tree_of_deriveName {depth : Nat} {name text text' : String} {s s' : σ × Array Draw}
    (h : e.deriveName c.recording depth name text s = (.ok text', s')) :
    ∃ tree : Tree e.grammar name, tree.nesting ≤ e.limits.maxDepth - depth ∧
      Wrote e.limits tree.leaves tree.draws text text' s.2 s'.2 := by
  induction hn : e.limits.maxDepth - depth using Nat.strongRecOn
    generalizing depth name text text' s s' with
  | ind n ih =>
    by_cases hg : ∃ a alts, e.grammar.alternatives? name = some (a :: alts)
    · obtain ⟨a, alts, hg⟩ := hg
      rw [deriveName_of_alternatives e c.recording hg] at h
      -- the place that the answer names, and the alternative there
      let answer := (c.pick s.1 (alts.length + 1)).1
      let index : Fin (a :: alts).length :=
        ⟨min answer alts.length, by rw [List.length_cons]; omega⟩
      have hdraw : Wrote e.limits [] [⟨(a :: alts).length, index⟩] text text s.2
          (s.2.push ⟨alts.length + 1, answer⟩) := Wrote.draw text s.2 ⟨alts.length + 1, answer⟩
      cases hchosen : clamped a alts (c.recording.pick s (alts.length + 1)).1 with
      | literal piece =>
        rw [hchosen, deriveAlternative] at h
        obtain ⟨happend, rfl⟩ := Prod.mk.inj h
        exact ⟨.literal piece (a :: alts) hg index hchosen, Nat.zero_le _,
          hdraw.trans (Wrote.leaf _ happend)⟩
      | sequence syms =>
        rw [hchosen, deriveAlternative] at h
        by_cases hd : e.limits.maxDepth ≤ depth
        · rw [if_pos hd] at h
          cases h
        · rw [if_neg hd] at h
          obtain ⟨children, hlevels, hwrote⟩ :=
            forest_of_deriveSequence (fun hname => ih (n - 1) (by omega) hname (by omega)) h
          refine ⟨.sequence (a :: alts) hg index hchosen children, ?_, hdraw.trans hwrote⟩
          show children.nesting + 1 ≤ n
          omega
    · have hnone : ∀ a alts, e.grammar.alternatives? name ≠ some (a :: alts) :=
        fun a alts ha => hg ⟨a, alts, ha⟩
      rw [deriveName_of_no_alternatives e c.recording hnone] at h
      cases h

end

/-! ## from a tree to its text -/

theorem deriveName_of_index {σ : Type} {e : Expander} {c : Chooser σ} {name : String}
    {alts : List Alternative} (rule : e.grammar.alternatives? name = some alts)
    (index : Fin alts.length) {s s' : σ} (hpick : c.pick s alts.length = (index.val, s'))
    (depth : Nat) (text : String) :
    e.deriveName c depth name text s = e.deriveAlternative c depth text s' (alts.get index) := by
  match alts, rule, index, hpick with
  | [], _, index, _ => exact index.elim0
  | a :: alts, rule, index, hpick =>
    -- an answer that is in range is taken as it is
    have hplace : min index.val alts.length = index.val :=
      Nat.min_eq_left (Nat.le_of_lt_succ index.isLt)
    have hpick' : c.pick s (alts.length + 1) = (index.val, s') := hpick
    rw [deriveName_of_alternatives e c rule, hpick']
    unfold clamped
    simp only [hplace]

theorem pick_scripted_recording (fallback pick count : Nat) (picks : List Nat)
    (seen : Array Draw) :
    (Chooser.scripted fallback).recording.pick (pick :: picks, seen) count =
      (pick, picks, seen.push ⟨count, pick⟩) := rfl

section
variable {e : Expander} (fallback : Nat)

mutual

/-- The answers of a tree lead through the tree, as long as it is within the limits. -/
theorem deriveName_of_tree {name : String} (tree : Tree e.grammar name) (depth : Nat)
    (text : String) (rest : List Nat) (seen : Array Draw)
    (hdepth : depth + tree.nesting ≤ e.limits.maxDepth)
    (hsize : (text ++ spell tree.leaves).utf8ByteSize ≤ e.limits.maxOutput) :
    e.deriveName (Chooser.scripted fallback).recording depth name text (tree.picks ++ rest, seen) =
      (.ok (text ++ spell tree.leaves), rest, seen ++ tree.draws.toArray) := by
  match tree with
  | .literal piece alts rule index chosen =>
    have hpick := pick_scripted_recording fallback index alts.length rest seen
    have happend : e.limits.append text piece = .ok (text ++ spell [piece]) :=
      Limits.append_of_le hsize
    show e.deriveName _ depth name text (index.val :: rest, seen) =
      (.ok (text ++ spell [piece]), rest, seen ++ [⟨alts.length, index.val⟩].toArray)
    rw [deriveName_of_index rule index hpick, chosen, deriveAlternative, happend,
      Array.push_eq_append]
  | .sequence alts rule index chosen children =>
    have hpick := pick_scripted_recording fallback index alts.length
      (children.draws.map (·.pick) ++ rest) seen
    have hdeeper : depth + (children.nesting + 1) ≤ e.limits.maxDepth := hdepth
    have hchildren := deriveSequence_of_forest children (depth + 1) text rest
      (seen.push ⟨alts.length, index.val⟩) (by omega) hsize
    have hseen : seen.push ⟨alts.length, index.val⟩ ++ children.draws.toArray =
        seen ++ (⟨alts.length, index.val⟩ :: children.draws).toArray := by simp
    show e.deriveName _ depth name text
        (index.val :: (children.draws.map (·.pick) ++ rest), seen) =
      (.ok (text ++ spell children.leaves), rest,
        seen ++ (⟨alts.length, index.val⟩ :: children.draws).toArray)
    rw [deriveName_of_index rule index hpick, chosen, deriveAlternative, if_neg (by omega),
      hchildren, hseen]

theorem deriveSequence_of_forest {syms : List Symbol} (forest : Forest e.grammar syms)
    (depth : Nat) (text : String) (rest : List Nat) (seen : Array Draw)
    (hdepth : depth + forest.nesting ≤ e.limits.maxDepth)
    (hsize : (text ++ spell forest.leaves).utf8ByteSize ≤ e.limits.maxOutput) :
    deriveSequence e.limits (e.deriveName (Chooser.scripted fallback).recording depth) syms text
        (forest.draws.map (·.pick) ++ rest, seen) =
      (.ok (text ++ spell forest.leaves), rest, seen ++ forest.draws.toArray) := by
  match forest with
  | .nil =>
    rw [Forest.leaves, Forest.draws, spell_nil, String.append_empty, Array.append_empty]
    rfl
  | .terminal piece more =>
    have hpiece : (text ++ spell [piece]).utf8ByteSize ≤ e.limits.maxOutput :=
      le_of_spell_append (b := more.leaves) hsize
    have hrest := deriveSequence_of_forest more depth (text ++ spell [piece]) rest seen hdepth
      (by rwa [String.append_assoc, ← spell_append])
    rw [String.append_assoc, ← spell_append] at hrest
    rw [deriveSequence_terminal, Limits.append_of_le hpiece]
    exact hrest
  | .nonterminal tree more =>
    rw [Forest.nesting] at hdepth
    rw [Forest.leaves] at hsize
    have hname := deriveName_of_tree tree depth text (more.draws.map (·.pick) ++ rest) seen
      (by omega) (le_of_spell_append hsize)
    have hrest := deriveSequence_of_forest more depth (text ++ spell tree.leaves) rest
      (seen ++ tree.draws.toArray) (by omega) (by rwa [String.append_assoc, ← spell_append])
    have hseen : seen ++ tree.draws.toArray ++ more.draws.toArray =
        seen ++ (tree.draws ++ more.draws).toArray := by simp
    rw [Tree.picks] at hname
    rw [Forest.leaves, Forest.draws, List.map_append, List.append_assoc,
      deriveSequence_nonterminal, hname]
    show deriveSequence e.limits _ _ _ _ = _
    rw [hrest, hseen, spell_append, String.append_assoc]

end

end

theorem generate_of_tree {e : Expander} {start : String} (tree : e.grammar.Tree start)
    (hnesting : tree.nesting ≤ e.limits.maxDepth)
    (hsize : (spell tree.leaves).utf8ByteSize ≤ e.limits.maxOutput) :
    e.generate (.scripted 0) start tree.picks = (.ok (spell tree.leaves), []) := by
  have hname := deriveName_of_tree (e := e) 0 tree 0 "" [] #[] (by rwa [Nat.zero_add])
    (by rwa [String.empty_append])
  rw [String.empty_append, List.append_nil] at hname
  rw [← generate_recording _ _ _ _ #[], generate_eq_derive, derive, hname]
  rfl

end Expander

/-- A tree is a choice of a sequence with the trees below it. -/
theorem Grammar.exists_tree {g : Grammar} {name : String} {i : Nat} {alts : List Alternative}
    {syms : List Symbol} (halts : g.alternatives? name = some alts)
    (hi : alts[i]? = some (.sequence syms)) (children : g.Forest syms) :
    ∃ tree : g.Tree name, tree.picks = i :: children.draws.map (·.pick) ∧
      tree.leaves = children.leaves ∧ tree.nesting = children.nesting + 1 := by
  obtain ⟨hlt, hget⟩ := List.getElem?_eq_some_iff.mp hi
  exact ⟨.sequence alts halts ⟨i, hlt⟩ hget children, rfl, rfl, rfl⟩

/-! ## words and leaves -/

theorem words_spell {leaves : List String} (h : ∀ leaf ∈ leaves, Text.IsWord leaf) :
    (Text.words (spell leaves).toList).map String.ofList = leaves := by
  induction leaves with
  | nil => rfl
  | cons leaf leaves ih =>
    obtain ⟨hne, hword⟩ := h leaf List.mem_cons_self
    have hrest := ih fun l hl => h l (List.mem_cons_of_mem _ hl)
    have htext : (spell (leaf :: leaves)).toList = leaf.toList ++ ' ' :: (spell leaves).toList := by
      rw [spell_cons, String.toList_append, String.toList_append, List.append_assoc]
      rfl
    rw [htext, Text.words_append_blank hne hword rfl, List.map_cons, hrest, String.ofList_toList]

namespace Grammar

section
variable {g : Grammar}

mutual

theorem Tree.isWord_of_mem_leaves (hg : g.InNotation) {name : String} (tree : g.Tree name) :
    ∀ leaf ∈ tree.leaves, Text.IsWord leaf := by
  match tree with
  | .literal text alts rule index chosen =>
    -- the notation has no literals
    obtain ⟨syms, hsyms, -⟩ := hg _ alts rule _ (List.get_mem alts index)
    rw [chosen] at hsyms
    cases hsyms
  | .sequence alts rule index chosen children =>
    obtain ⟨syms, hsyms, hwords⟩ := hg _ alts rule _ (List.get_mem alts index)
    rw [chosen] at hsyms
    cases hsyms
    exact Forest.isWord_of_mem_leaves hg hwords children

theorem Forest.isWord_of_mem_leaves (hg : g.InNotation) {syms : List Symbol}
    (hsyms : ∀ text, .terminal text ∈ syms → Text.IsWord text) (forest : g.Forest syms) :
    ∀ leaf ∈ forest.leaves, Text.IsWord leaf := by
  match forest with
  | .nil => exact fun leaf hleaf => nomatch hleaf
  | .terminal text more =>
    intro leaf hleaf
    rcases List.mem_cons.mp hleaf with rfl | hleaf
    · exact hsyms leaf List.mem_cons_self
    · exact Forest.isWord_of_mem_leaves hg (fun t ht => hsyms t (List.mem_cons_of_mem _ ht)) more
        leaf hleaf
  | .nonterminal tree more =>
    intro leaf hleaf
    rcases List.mem_append.mp hleaf with hleaf | hleaf
    · exact Tree.isWord_of_mem_leaves hg tree leaf hleaf
    · exact Forest.isWord_of_mem_leaves hg (fun t ht => hsyms t (List.mem_cons_of_mem _ ht)) more
        leaf hleaf

end

end

end Grammar

namespace Expander

theorem tree_of_generate {σ : Type} {e : Expander} {c : Chooser σ} {start t : String} {s s' : σ}
    (h : e.generate c start s = (.ok t, s')) :
    ∃ (tree : e.grammar.Tree start) (draws : Array Draw), tree.nesting ≤ e.limits.maxDepth ∧
      t = spell tree.leaves ∧ t.utf8ByteSize ≤ e.limits.maxOutput ∧
      e.generate c.recording start (s, #[]) = (.ok t, s', draws) ∧
      draws.toList.map Draw.clamped = tree.draws := by
  have hview := generate_recording e c start s #[]
  rw [h] at hview
  cases hrecorded : e.generate c.recording start (s, #[]) with
  | mk r recorded =>
    rw [hrecorded] at hview
    obtain ⟨hr, hs⟩ := Prod.mk.inj hview
    obtain ⟨last, draws⟩ := recorded
    obtain rfl : r = .ok t := hr
    obtain rfl : last = s' := hs
    have hderive := hrecorded
    rw [generate_eq_derive, derive] at hderive
    obtain ⟨tree, hnesting, hwrote⟩ := tree_of_deriveName hderive
    have htext : t = spell tree.leaves := by
      rw [hwrote.text_eq, String.empty_append]
    exact ⟨tree, draws, hnesting, htext, hwrote.size_le (Nat.zero_le _), rfl, hwrote.nodes_eq⟩

/-- **Generation is the bounded language of the grammar.**  Every text that is returned is that of
a derivation tree at the start symbol within both limits, and the draws, once in range, are the
nodes of the tree.  The answers of every such tree lead to its text, and no more of them are taken.
If the grammar was declared in the notation alone, the words of the text are the leaves. -/
theorem generate_eq_language (g : Grammar) (limits : Limits) (start : String) :
    let e : Expander := ⟨g, limits⟩
    (∀ {σ : Type} (c : Chooser σ) (s s' : σ) (t : String), e.generate c start s = (.ok t, s') →
      ∃ (tree : g.Tree start) (draws : Array Draw), tree.nesting ≤ limits.maxDepth ∧
        t = spell tree.leaves ∧ t.utf8ByteSize ≤ limits.maxOutput ∧
        e.generate c.recording start (s, #[]) = (.ok t, s', draws) ∧
        draws.toList.map Draw.clamped = tree.draws) ∧
    (∀ tree : g.Tree start, tree.nesting ≤ limits.maxDepth →
      (spell tree.leaves).utf8ByteSize ≤ limits.maxOutput → ∀ (fallback : Nat) (rest : List Nat),
        e.generate (.scripted fallback) start (tree.picks ++ rest) =
          (.ok (spell tree.leaves), rest) ∧
        e.generate (Chooser.scripted fallback).recording start (tree.picks ++ rest, #[]) =
          (.ok (spell tree.leaves), rest, tree.draws.toArray)) ∧
    (∀ decls : List Declaration, (∀ decl ∈ decls, ∃ name text, decl = .spec name text) →
      (Draft.ofDeclarations decls).build = .ok g → ∀ tree : g.Tree start,
        (Text.words (spell tree.leaves).toList).map String.ofList = tree.leaves) := by
  intro e
  refine ⟨fun c s s' t h => tree_of_generate h, fun tree hnesting hsize fallback rest => ?_,
    fun decls hspecs hbuild tree => ?_⟩
  · have hname := deriveName_of_tree (e := e) fallback tree 0 "" rest #[] (by rwa [Nat.zero_add])
      (by rwa [String.empty_append])
    rw [String.empty_append, Array.empty_append] at hname
    have hrecorded : e.generate (Chooser.scripted fallback).recording start
        (tree.picks ++ rest, #[]) = (.ok (spell tree.leaves), rest, tree.draws.toArray) := by
      rw [generate_eq_derive, derive, hname]
    refine ⟨?_, hrecorded⟩
    rw [← generate_recording e (.scripted fallback) start (tree.picks ++ rest) #[], hrecorded]
    rfl
  · exact words_spell (tree.isWord_of_mem_leaves (Draft.inNotation_of_build hspecs hbuild))

/-- Two pairs of parentheses at a depth that has room for no third. -/
theorem generate_two_parentheses :
    let open1 : Alternative := .sequence [.terminal "(", .nonterminal "S", .terminal ")"]
    let g : Grammar := ⟨[("S", [open1, .sequence []])]⟩
    let e : Expander := ⟨g, { maxDepth := 3, maxOutput := 8 }⟩
    ∃ tree : g.Tree "S", tree.nesting = 3 ∧ tree.leaves = ["(", "(", ")", ")"] ∧
      e.generate (.scripted 0) "S" (tree.picks ++ [7]) = (.ok "( ( ) ) ", [7]) ∧
      (Text.words "( ( ) ) ".toList).map String.ofList = tree.leaves := by
  intro open1 g e
  have hrule : g.alternatives? "S" = some [open1, .sequence []] := rfl
  let close : g.Tree "S" := .sequence _ hrule ⟨1, by decide⟩ rfl .nil
  let wrap (t : g.Tree "S") : g.Tree "S" :=
    .sequence _ hrule ⟨0, by decide⟩ rfl (.terminal "(" (.nonterminal t (.terminal ")" .nil)))
  let tree := wrap (wrap close)
  have hnesting : tree.nesting = 3 := rfl
  have hleaves : tree.leaves = ["(", "(", ")", ")"] := rfl
  have hspell : spell tree.leaves = "( ( ) ) " := by
    rw [hleaves]
    decide
  have hsize : "( ( ) ) ".utf8ByteSize ≤ 8 := by decide
  have hbuild : (Draft.ofDeclarations [.spec "S" "( S ) |"]).build = .ok g := by cbv
  obtain ⟨-, hcomplete, hwords⟩ := generate_eq_language g { maxDepth := 3, maxOutput := 8 } "S"
  obtain ⟨hgenerate, -⟩ := hcomplete tree hnesting.le (hspell ▸ hsize) 0 [7]
  have hread := hwords [.spec "S" "( S ) |"] (by simp) hbuild tree
  rw [hspell] at hgenerate hread
  exact ⟨tree, hnesting, hleaves, hgenerate, hread⟩

end Expander

end PageFuzz
