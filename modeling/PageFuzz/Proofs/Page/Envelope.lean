import Mathlib
import PageFuzz.Proofs.Derivation.Marks
import PageFuzz.Proofs.Grammar.History
import PageFuzz.Proofs.Page.Payload

/-!
# The envelope of a plain page

A plain page is one root element, without a trace of the payload.  The tags of the root stand in no
row of the tables but the root's own, and only the start leads to the root.

* `Bears`                  a rule leads to a mark once, or never;
* `plain_weighed`          what the rows of the tables make of a mark;
* `generate_plain`         every page that is generated.
-/

namespace PageFuzz.Page

open Draft Text

/-! ## marks in the tables -/

/-- the function that a payload defines -/
def payloadCall : String := "domFuzz"

/-- the rules that lead to the tags of the root -/
def trunk : List String := [startSymbol, rootRule]

/-- how often a name leads to a mark, if the rules that do so are given -/
def leadsTo (rules : List String) (name : String) : Nat := if rules.contains name then 1 else 0

/-- A row of tokens has a mark as often as its rule is to lead to it. -/
def Bears (mark : String) (rules : List String) (name : String) (ts : List String) : Prop :=
  (ts.map fun t => leadsTo rules t + occurrences mark.toList t.toList).sum = leadsTo rules name

/-- `Bears` on characters -/
def bears (mark : List Char) (rules : List (List Char)) (name : List Char)
    (ws : List (List Char)) : Bool :=
  (ws.map fun w => (if rules.contains w then 1 else 0) + occurrences mark w).sum ==
    if rules.contains name then 1 else 0

theorem bears_of_check {mark : String} {rules : List String} {name : String} {ts : List String}
    (h : bears mark.toList (rules.map String.toList) name.toList (ts.map String.toList) = true) :
    Bears mark rules name ts := by
  unfold bears at h
  rw [beq_iff_eq, List.map_map, contains_map_toList] at h
  simp only [Function.comp_def, contains_map_toList] at h
  exact h

/-- What a row of a plain page's tables has of the root's tags and of the payload. -/
structure Plain (name : String) (ts : List String) : Prop where
  ends : Ends name ts
  opening : Bears rootOpening trunk name ts
  ending : Bears rootEnd trunk name ts
  call : Bears payloadCall [] name ts

section
variable (trunk : List (List Char)) (start root opening ending call : List Char)

/-- `Plain` on characters -/
def plain (name : List Char) (ws : List (List Char)) : Bool :=
  threads [] start root opening ending name ws && bears opening trunk name ws &&
    bears ending trunk name ws && bears call [] name ws

end

theorem plain_of_check {name : String} {ts : List String}
    (h : plain (trunk.map String.toList) startSymbol.toList rootRule.toList rootOpening.toList
      rootEnd.toList payloadCall.toList name.toList (ts.map String.toList) = true) :
    Plain name ts := by
  unfold plain at h
  rw [Bool.and_eq_true_iff, Bool.and_eq_true_iff, Bool.and_eq_true_iff] at h
  obtain ⟨⟨⟨hends, hopening⟩, hending⟩, hcall⟩ := h
  exact ⟨ends_of_check hends, bears_of_check hopening, bears_of_check hending,
    bears_of_check hcall⟩

/-- the rules of a plain page -/
def plainTable : List (String × List String) := sharedRules ++ plainRules

set_option maxRecDepth 100000 in
theorem plainTable_checked :
    checkRows (isFrameName payloadRule.toList) (plain (trunk.map String.toList) startSymbol.toList
      rootRule.toList rootOpening.toList rootEnd.toList payloadCall.toList)
      (decoded plainTable) = true := by
  simp only [plainTable, sharedRules, elements, styles, drawings, plainRules, trunk, startSymbol,
    rootRule, payloadRule, payloadCall, rootOpening, rootEnd, decoded, List.map_append,
    List.map_cons, List.map_nil, String.toList_append, toList_of_eq rfl]
  decide +kernel

set_option maxRecDepth 100000 in
theorem trunk_checked :
    (trunk.map String.toList).all
      (plainTable.flatMap fun r => r.2.map fun _ => r.1.toList).contains = true := by
  simp only [plainTable, sharedRules, elements, styles, drawings, plainRules, trunk, startSymbol,
    rootRule, List.flatMap_append, List.flatMap_cons, List.flatMap_nil, List.map_cons,
    List.map_nil, toList_of_eq rfl]
  decide +kernel

theorem plain_name {r : String × List String} (hr : r ∈ plainTable) : IsFrameName r.1 :=
  isFrameName_of_check (forall_rows plainTable_checked r hr).1

theorem plain_row {r : String × List String} (hr : r ∈ plainTable) {text : String}
    (htext : text ∈ r.2) {ts : List String} (hts : ts ∈ Notation.tokens text) : Plain r.1 ts :=
  plain_of_check ((forall_rows plainTable_checked r hr).2 text htext ts hts)

/-! ## the grammar of plain pages -/

theorem declarations_plain : declarations .plain = declared plainTable := rfl

/-- the rules of a plain page by name -/
def plainNames : List String := namesOf (declarations .plain)

theorem mem_plainNames {name : String} :
    name ∈ plainNames ↔ ∃ r ∈ plainTable, r.1 = name ∧ r.2 ≠ [] := by
  unfold plainNames
  rw [declarations_plain, mem_namesOf]
  exact exists_declared

theorem letters_of_plainName {name : String} (h : name ∈ plainNames) :
    ∀ c ∈ name.toList, isNameChar c = true := by
  obtain ⟨r, hr, rfl, -⟩ := mem_plainNames.mp h
  exact (plain_name hr).letters

theorem sound_plain : (ofDeclarations (declarations .plain)).Sound := by
  apply sound_of_declarations
  · intro decl hdecl
    obtain ⟨r, hr, text, -, rfl⟩ := mem_declared.mp hdecl
    have hname := plain_name hr
    exact isValidName_of_letters hname.ne_nil hname.letters
  · intro name alts hdecl
    obtain ⟨r, -, text, -, heq⟩ := mem_declared.mp hdecl
    cases heq

section
variable {g : Grammar}

/-- an alternative is a row of tokens from the tables -/
theorem plain_alternative (hg : grammar .plain = .ok g) {name : String} {alts : List Alternative}
    (h : g.alternatives? name = some alts) {a : Alternative} (ha : a ∈ alts) :
    ∃ ts, a = .sequence (ts.map (classify plainNames)) ∧ Plain name ts := by
  rw [alternatives?_of_build hg] at h
  split at h
  · cases h
    obtain ⟨pending, hpending, rfl⟩ := List.mem_map.mp ha
    obtain ⟨decl, hdecl, hmem⟩ := List.mem_flatMap.mp hpending
    obtain ⟨hdeclared, hname⟩ := List.mem_filter.mp hdecl
    obtain ⟨r, hr, text, htext, rfl⟩ := mem_declared.mp hdeclared
    obtain ⟨ts, hts, rfl⟩ := List.mem_map.mp hmem
    obtain rfl : r.1 = name := beq_iff_eq.mp hname
    exact ⟨ts, rfl, plain_row hr htext hts⟩
  · cases h

theorem mem_plainNames_of_trunk {name : String} (h : name ∈ trunk) : name ∈ plainNames := by
  have hrow := List.all_eq_true.mp trunk_checked _ (List.mem_map_of_mem h)
  exact mem_plainNames.mpr (row_of_mem (List.contains_iff_mem.mp hrow))

theorem rooted_plain (hg : grammar .plain = .ok g) : Rooted g := by
  apply rooted_of_ends (fun _ => letters_of_plainName) (mem_plainNames_of_trunk (by decide))
  intro name hname alts halts a ha
  obtain ⟨ts, rfl, hplain⟩ := plain_alternative hg halts ha
  exact ⟨ts, rfl, hplain.ends⟩

/-! ## marks in a page -/

section
variable {mark : String} {rules : List String} {c : Char}

/-- A name does not have a mark in its letters, and what is not a name leads nowhere. -/
theorem weight_classify (hrules : ∀ name ∈ rules, name ∈ plainNames) (hc : c ∈ mark.toList)
    (hletter : isNameChar c = false) (t : String) :
    (classify plainNames t).weight (fun text => occurrences mark.toList text.toList)
      (leadsTo rules) = leadsTo rules t + occurrences mark.toList t.toList := by
  by_cases ht : t ∈ plainNames
  · have hnone : occurrences mark.toList t.toList = 0 := by
      apply occurrences_of_notMem hc
      intro hmem
      rw [letters_of_plainName ht c hmem] at hletter
      cases hletter
    rw [classify_of_contains ht, hnone]
    rfl
  · have hterminal : classify plainNames t = .terminal t :=
      if_neg (mt List.contains_iff_mem.mp ht)
    have hnowhere : leadsTo rules t = 0 :=
      if_neg (mt List.contains_iff_mem.mp fun hmem => ht (hrules t hmem))
    rw [hterminal, hnowhere, Nat.zero_add]
    rfl

theorem plain_weighed (hg : grammar .plain = .ok g) (hrules : ∀ name ∈ rules, name ∈ plainNames)
    (hc : c ∈ mark.toList) (hletter : isNameChar c = false)
    (hbears : ∀ {name ts}, Plain name ts → Bears mark rules name ts) :
    g.Weighed (fun text => occurrences mark.toList text.toList) (leadsTo rules) := by
  intro name alts halts a ha
  obtain ⟨ts, rfl, hplain⟩ := plain_alternative hg halts ha
  have hrow : (ts.map (classify plainNames)).map (Symbol.weight
      (fun text => occurrences mark.toList text.toList) (leadsTo rules)) =
      ts.map fun t => leadsTo rules t + occurrences mark.toList t.toList := by
    rw [List.map_map, Function.comp_def]
    exact List.map_congr_left fun t _ => weight_classify hrules hc hletter t
  rw [Alternative.weight, hrow]
  exact hbears hplain

end

end

/-- **Every plain page has its envelope once, and no trace of the payload.**  The grammar of plain
pages is built, and whatever page is generated from it, within any limits and with any chooser,
begins with the opening of the root element and ends with its end and a space; it has neither of
them anywhere else, and the name of the payload's function nowhere. -/
theorem generate_plain :
    ∃ g, grammar .plain = .ok g ∧
    ∀ (limits : Limits) {σ : Type} (c : Chooser σ) (s s' : σ) (t : String),
      (Expander.mk g limits).generate c startSymbol s = (.ok t, s') →
      "<html".toList <+: t.toList ∧ "</html> ".toList <:+ t.toList ∧
      occurrences "<html".toList t.toList = 1 ∧ occurrences "</html>".toList t.toList = 1 ∧
      ¬ "domFuzz".toList <:+: t.toList := by
  obtain ⟨g, hg⟩ : ∃ g, grammar .plain = .ok g := ⟨_, build_of_sound sound_plain⟩
  refine ⟨g, hg, fun limits σ c s s' t hrun => ?_⟩
  have htrunk : ∀ name ∈ trunk, name ∈ plainNames := fun _ => mem_plainNames_of_trunk
  -- names have no angle bracket, and no capital letter
  have hopening := plain_weighed (c := '<') hg htrunk (by decide) (by decide) Plain.opening
  have hending := plain_weighed (c := '<') hg htrunk (by decide) (by decide) Plain.ending
  have hcall := plain_weighed (c := 'F') hg (List.forall_mem_nil _) (by decide) (by decide)
    Plain.call
  obtain ⟨tree, -, -, htext, -⟩ := Expander.tree_of_generate hrun
  obtain ⟨hfirst, hlast⟩ := (rooted_plain hg).spell_page_ends tree
  rw [← htext] at hfirst hlast
  refine ⟨hfirst, hlast, ?_, ?_, ?_⟩
  · exact Expander.occurrences_of_generate hopening (by decide) (by decide) hrun
  · exact Expander.occurrences_of_generate hending (by decide) (by decide) hrun
  · have hnone := Expander.occurrences_of_generate hcall (by decide) (by decide) hrun
    exact occurrences_eq_zero_iff.mp hnone

/-! ## a page with one frame -/

/-- the leaves of a page with one frame -/
def framePage : List String :=
  ["<html>", "<head>", "<base", "href=\"http://127.0.0.1\"", "target=\"_parent\">", "</head>",
    "<frameset", "cols=\"25%,*,25%\"", "rows=\"25%,*,25%\">"] ++ frameLeaves ++
    ["</frameset>", "</html>"]

/-- the texts before the frame of a set -/
def plainSet : List String := ["<frameset", "cols=\"25%,*,25%\"", "rows=\"25%,*,25%\">"]

set_option maxRecDepth 10000 in
theorem framed_plain :
    Framed (under (declarations .plain)) ["<head>"]
      (plainSet ++ ["frameset_content", "</frameset>"]) := by
  constructor <;> decide +kernel

theorem grows_framePage {g : Grammar} (hg : grammar .plain = .ok g) :
    Grows g startSymbol [0, 0, 1, 0, 0, 0, 0, 0] framePage 6 := by
  have hletters : ∀ name ∈ namesOf (declarations .plain), ∀ c ∈ name.toList,
      isNameChar c = true := fun _ => letters_of_plainName
  have hframe := grows_frame hg framed_plain hletters
  have hend : ∀ t ∈ ["</frameset>"], t.toList.all isNameChar = false := by decide
  have hset : ∀ t ∈ plainSet, t.toList.all isNameChar = false := by decide
  have hhead : ∀ t ∈ ["<head>"], t.toList.all isNameChar = false := by decide
  have hrow := ((rowGrows_texts fun t ht => classify_of_letters hletters (hend t ht)).name
    (mem_namesOf_of_under framed_plain.frame) hframe).texts fun t ht =>
      classify_of_letters hletters (hset t ht)
  exact grows_page hg framed_plain hletters hhead hrow

/-- A page with one frame, by the answers that lead to it. -/
theorem generate_plain_frame :
    ∃ g, grammar .plain = .ok g ∧
      (Expander.mk g {}).generate (.scripted 0) startSymbol [0, 0, 1, 0, 0, 0, 0, 0] =
        (.ok (spell framePage), []) ∧
      "<html".toList <+: (spell framePage).toList ∧
      "</html> ".toList <:+ (spell framePage).toList ∧
      occurrences "<html".toList (spell framePage).toList = 1 ∧
      occurrences "</html>".toList (spell framePage).toList = 1 ∧
      ¬ "domFuzz".toList <:+: (spell framePage).toList := by
  obtain ⟨g, hg, hpages⟩ := generate_plain
  obtain ⟨page, hpicks, hleaves, hnesting⟩ := grows_framePage hg
  have hdepth : page.nesting ≤ 512 := by omega
  have hsize : (spell page.leaves).utf8ByteSize ≤ 8 * 1024 * 1024 := by
    rw [hleaves]
    decide +kernel
  have hrun := Expander.generate_of_tree (e := ⟨g, {}⟩) page hdepth hsize
  rw [hpicks, hleaves] at hrun
  exact ⟨g, hg, hrun, hpages {} (.scripted 0) _ _ _ hrun⟩

end PageFuzz.Page
