import Mathlib
import PageFuzz.Proofs.Derivation.Pumping
import PageFuzz.Proofs.Page.Payload

/-!
# How deep a page has to nest

The tables of the two flavours have one row for each rule, so the grammars have as many rules as
the tables have rows, and the default depth is more than that.

* `names_declared`             a table with different names becomes a draft with these names;
* `size_grammar`               the number of rules of each flavour;
* `derives_iff_within_rules`   no depth beyond the number of rules derives anything more.
-/

namespace PageFuzz

namespace Draft

theorem names_declare (d : Draft) (decl : Declaration) :
    (d.declare decl).names =
      if decl.name ∈ d.names then d.names else d.names ++ [decl.name] :=
  names_extendRules decl.name decl.pending d.rules

/-- Declaring more of a rule that is there adds no rule. -/
theorem names_foldl_of_mem {decls : List Declaration} {d : Draft}
    (h : ∀ decl ∈ decls, decl.name ∈ d.names) : (decls.foldl declare d).names = d.names := by
  induction decls generalizing d with
  | nil => rfl
  | cons decl decls ih =>
    have hsame : (d.declare decl).names = d.names := by
      rw [names_declare, if_pos (h decl List.mem_cons_self)]
    rw [List.foldl_cons, ih, hsame]
    intro more hmore
    rw [hsame]
    exact h more (List.mem_cons_of_mem _ hmore)

end Draft

namespace Page

open Draft

theorem declared_append (a b : List (String × List String)) :
    declared (a ++ b) = declared a ++ declared b := List.flatMap_append

theorem declared_singleton (name text : String) (texts : List String) :
    declared [(name, text :: texts)] = .spec name text :: texts.map (.spec name) :=
  List.append_nil _

/-- A table with different names and no empty rows becomes a draft with these names. -/
theorem names_declared {rules : List (String × List String)} (hne : ∀ r ∈ rules, r.2 ≠ [])
    (hnodup : (rules.map Prod.fst).Nodup) :
    (ofDeclarations (declared rules)).names = rules.map Prod.fst := by
  induction rules using List.reverseRecOn with
  | nil => rfl
  | append_singleton rules last ih =>
    obtain ⟨name, texts⟩ := last
    rw [List.map_append, List.nodup_append] at hnodup
    obtain ⟨hfront, -, hapart⟩ := hnodup
    have hnames := ih (fun r hr => hne r (List.mem_append_left _ hr)) hfront
    have hnew : name ∉ (ofDeclarations (declared rules)).names := by
      rw [hnames]
      intro hmem
      exact hapart name hmem name List.mem_cons_self rfl
    obtain ⟨text, texts, rfl⟩ : ∃ first more, texts = first :: more :=
      List.exists_cons_of_ne_nil (hne _ (List.mem_append_right _ List.mem_cons_self))
    -- the first text makes the rule and the others belong to it
    have hfirst : ((ofDeclarations (declared rules)).declare (.spec name text)).names =
        rules.map Prod.fst ++ [name] := by
      rw [names_declare, ← hnames]
      exact if_neg hnew
    rw [declared_append, declared_singleton, ofDeclarations_append, List.foldl_cons,
      names_foldl_of_mem, hfirst, List.map_append]
    · rfl
    · intro decl hdecl
      obtain ⟨more, -, rfl⟩ := List.mem_map.mp hdecl
      rw [hfirst]
      exact List.mem_append_right _ List.mem_cons_self

/-! ## the tables -/

/-- a name as one number, so that names can be told apart quickly -/
def nameCode (name : List Char) : Nat := name.foldl (fun n c => n * 128 + c.toNat) 0

/-- the names of a table, and which rows are empty -/
def heads (rules : List (String × List String)) : List (List Char × Bool) :=
  rules.map fun r => (r.1.toList, r.2.isEmpty)

/-- a check that the rows of a table have different names and are not empty -/
def isTable (rows : List (List Char × Bool)) : Bool :=
  rows.all (!·.2) && decide (rows.map fun r => nameCode r.1).Nodup

theorem names_of_isTable {rules : List (String × List String)} (h : isTable (heads rules) = true) :
    (ofDeclarations (declared rules)).names = rules.map Prod.fst := by
  obtain ⟨hrows, hcodes⟩ := Bool.and_eq_true_iff.mp h
  refine names_declared (fun r hr hnil => ?_) ?_
  · have hrow := List.all_eq_true.mp hrows _ (List.mem_map_of_mem hr)
    rw [hnil] at hrow
    cases hrow
  · have hnodup := of_decide_eq_true hcodes
    have hcode : (heads rules).map (fun r => nameCode r.1) =
        (rules.map Prod.fst).map fun name => nameCode name.toList := by
      rw [heads, List.map_map, List.map_map]
      rfl
    rw [hcode] at hnodup
    exact hnodup.of_map

set_option maxRecDepth 100000 in
theorem plain_isTable : isTable (heads (sharedRules ++ plainRules)) = true := by
  simp only [sharedRules, elements, styles, drawings, plainRules, heads, List.map_append,
    List.map_cons, List.map_nil, List.isEmpty_cons, toList_of_eq rfl]
  decide +kernel

set_option maxRecDepth 100000 in
theorem frame_isTable : isTable (heads frameRules) = true := by
  simp only [frameRules, sharedRules, elements, styles, drawings, fuzzingRules, heads,
    List.map_append, List.map_cons, List.map_nil, List.isEmpty_cons, toList_of_eq rfl]
  decide +kernel

/-- the number of rules of a flavour -/
def ruleCount : Flavour → Nat
  | .plain => 187
  | .fuzzing _ => 188

theorem length_names_declarations (f : Flavour) :
    (ofDeclarations (declarations f)).names.length = ruleCount f := by
  cases f with
  | plain =>
    have hnames := names_of_isTable plain_isTable
    rw [declarations, hnames, List.length_map]
    decide +kernel
  | fuzzing payload =>
    have hnames := names_of_isTable frame_isTable
    have hframe : frameRules.length = 187 := by decide +kernel
    rw [names_fuzzing, ruleNames, List.length_append, frameDraft, hnames, List.length_map, hframe]
    rfl

/-- Building keeps the rules of a table. -/
theorem size_grammar {f : Flavour} {g : Grammar} (h : grammar f = .ok g) :
    g.size = ruleCount f := by
  have hlength := length_names_declarations f
  rw [Draft.names, List.length_map] at hlength
  rw [Grammar.size, rules_of_build h, List.length_map, hlength]

/-- **No depth beyond the number of rules derives anything more.**  For every grammar, start symbol
and limits, some chooser brings a derivation to its end exactly if one does at a depth of at most
the number of rules.  The pages of both flavours have fewer rules than the default depth, so
whatever can be derived of them at any depth can be derived at that one. -/
theorem derives_iff_within_rules (g : Grammar) (depth bytes : Nat) (start : String) :
    ((Expander.mk g ⟨depth, bytes⟩).Derives start ↔
      (Expander.mk g ⟨min depth g.size, bytes⟩).Derives start) ∧
    ∀ f, grammar f = .ok g → g.size = ruleCount f ∧
      ((Expander.mk g ⟨depth, bytes⟩).Derives start →
        (Expander.mk g { maxOutput := bytes }).Derives start) := by
  have hiff := Expander.derives_iff_of_size g depth bytes start
  refine ⟨hiff, fun f hf => ⟨size_grammar hf, fun h => ?_⟩⟩
  have hcount : ruleCount f ≤ 512 := by
    cases f with
    | plain => exact (by decide : 187 ≤ 512)
    | fuzzing payload => exact (by decide : 188 ≤ 512)
  refine (hiff.mp h).mono ?_ (Nat.le_refl _)
  calc min depth g.size ≤ g.size := Nat.min_le_right _ _
    _ = ruleCount f := size_grammar hf
    _ ≤ 512 := hcount

/-- Two rules that refer to one another, gone round once more than there was need to, and a page that
was given more depth than the default. -/
theorem derives_iff_within_rules_of_loop :
    let g : Grammar := ⟨[("s", [.sequence [.terminal "(", .nonterminal "t"]]),
      ("t", [.sequence [.nonterminal "s"], .sequence [.terminal ")"]])]⟩
    let page := fuzzingGrammar "p"
    let bytes := 8 * 1024 * 1024
    (Expander.mk g ⟨4, 6⟩).Derives "s" ∧ (Expander.mk g ⟨2, 6⟩).Derives "s" ∧
      page.size = 188 ∧ (Expander.mk page ⟨1000, bytes⟩).Derives startSymbol ∧
      (Expander.mk page { maxOutput := bytes }).Derives startSymbol := by
  intro g page bytes
  have hround : (Expander.mk g ⟨4, 6⟩).Derives "s" := by
    refine ⟨_, .scripted 0, [0, 0, 0, 1], [], "( ( ) ", ?_⟩
    cbv
  have hstraight := (derives_iff_within_rules g 4 6 "s").1.mp hround
  have hframes := generate_framesPage "p" (by decide +kernel)
  have hdefault : (Expander.mk page {}).Derives startSymbol := ⟨_, _, _, _, _, hframes⟩
  have hmore : (Expander.mk page ⟨1000, bytes⟩).Derives startSymbol :=
    hdefault.mono (by decide) (Nat.le_refl _)
  obtain ⟨hsize, hless⟩ :=
    (derives_iff_within_rules page 1000 bytes startSymbol).2 _ (grammar_fuzzing "p")
  exact ⟨hround, hstraight, hsize, hmore, hless hmore⟩

end Page

end PageFuzz
