import Mathlib.Tactic.Common
import PageFuzz.Page.Flavour
import PageFuzz.Page.Start
import PageFuzz.Proofs.Text.Words

/-!
# What the tables of rules have in common

Facts about every row of the tables, each checked row by row.  The check reads characters and not
texts, since a text that is written out is a row of characters only after it has been encoded and
decoded again.

* `forall_rows`    a check of characters, and what it says of texts;
* `row_threads`    each alternative passes the payload on at most once: exactly the rules on the way
                   from the start to the payload do, and each alternative of theirs to one rule;
* `row_start`, `row_root`    what a page begins and ends with.
-/

namespace PageFuzz.Page

/-! ## rows of characters -/

/-- the words of each alternative -/
def cells (text : List Char) : List (List (List Char)) :=
  (text.splitOnP (· == Notation.bar)).map Text.words

/-- a table with its texts decoded -/
def decoded (rules : List (String × List String)) : List (List Char × List (List Char)) :=
  rules.map fun r => (r.1.toList, r.2.map String.toList)

theorem tokens_eq_cells (text : String) :
    Notation.tokens text = (cells text.toList).map fun ws => ws.map String.ofList :=
  List.map_map.symm

/-- the characters of a text that is written out -/
theorem toList_of_eq {s : String} {cs : List Char} (h : s = String.ofList cs) : s.toList = cs := by
  rw [h, String.toList_ofList]

/-- a check of the name of each row, and of the words of each alternative beside that name -/
def checkRows (name : List Char → Bool) (cell : List Char → List (List Char) → Bool)
    (rows : List (List Char × List (List Char))) : Bool :=
  rows.all fun r => name r.1 && r.2.all fun text => (cells text).all (cell r.1)

theorem forall_rows {name : List Char → Bool} {cell : List Char → List (List Char) → Bool}
    {rules : List (String × List String)} (h : checkRows name cell (decoded rules) = true) :
    ∀ r ∈ rules, name r.1.toList = true ∧ ∀ text ∈ r.2, ∀ ts ∈ Notation.tokens text,
      cell r.1.toList (ts.map String.toList) = true := by
  intro r hr
  have hrow := List.all_eq_true.mp h _ (List.mem_map_of_mem hr)
  obtain ⟨hname, htexts⟩ := Bool.and_eq_true_iff.mp hrow
  refine ⟨hname, fun text htext ts hts => ?_⟩
  rw [tokens_eq_cells] at hts
  obtain ⟨ws, hws, rfl⟩ := List.mem_map.mp hts
  have hcells := List.all_eq_true.mp htexts _ (List.mem_map_of_mem htext)
  have hback : (ws.map String.ofList).map String.toList = ws := by
    rw [List.map_map]
    exact (List.map_congr_left fun w _ => String.toList_ofList).trans (List.map_id ws)
  rw [hback]
  exact List.all_eq_true.mp hcells ws hws

/-! ## the way to the payload -/

/-- the letters of names: a tag that is opened or closed is no name -/
def isNameChar (c : Char) : Bool := c.isLower || c.isDigit || c == '_'

/-- the rule of the outermost element -/
def rootRule : String := "html_tag"

def rootOpening : String := "<html"

def rootEnd : String := "</html>"

/-- the rules on the way from the start to the payload, and the payload's own -/
def spine : List String :=
  [startSymbol, rootRule, "html_content", "body_tag", "frameset_tag", payloadRule]

/-- The sequences of a rule pass through the spine once if the rule is on it, and never if not.  The
start leads to the root alone, and the root stands between its tags. -/
structure Threads (name : String) (ts : List String) : Prop where
  once : ts.countP spine.contains = if name ∈ spine then 1 else 0
  start : name = startSymbol → ts = [rootRule]
  root : name = rootRule → ∃ opening inner, ts = opening :: (inner ++ [rootEnd]) ∧
    rootOpening.toList <+: opening.toList

section
variable (spine : List (List Char)) (start root opening ending : List Char)

/-- `Threads` on characters -/
def threads (name : List Char) (ws : List (List Char)) : Bool :=
  ws.countP spine.contains == (if spine.contains name then 1 else 0) &&
    (name != start || ws == [root]) &&
    (name != root || (ws.tail.getLast? == some ending && opening.isPrefixOf (ws.headD [])))

end

theorem contains_map_toList (names : List String) (t : String) :
    (names.map String.toList).contains t.toList = names.contains t := by
  induction names with
  | nil => rfl
  | cons n names ih =>
    have hhead : (t.toList == n.toList) = (t == n) := by
      rw [Bool.eq_iff_iff, beq_iff_eq, beq_iff_eq, String.toList_inj]
    rw [List.map_cons, List.contains_cons, List.contains_cons, ih, hhead]

theorem eq_singleton_of_map {ts : List String} {t : String}
    (h : ts.map String.toList = [t.toList]) :
    ts = [t] := by
  obtain ⟨u, rfl, hu⟩ := List.map_eq_singleton_iff.mp h
  rw [String.toList_inj.mp hu]

/-- what `Threads` says of the start and of the root, whatever is on the way between them -/
structure Ends (name : String) (ts : List String) : Prop where
  start : name = startSymbol → ts = [rootRule]
  root : name = rootRule → ∃ opening inner, ts = opening :: (inner ++ [rootEnd]) ∧
    rootOpening.toList <+: opening.toList

theorem ends_of_check {way : List (List Char)} {name : String} {ts : List String}
    (h : threads way startSymbol.toList rootRule.toList rootOpening.toList rootEnd.toList
      name.toList (ts.map String.toList) = true) : Ends name ts := by
  unfold threads at h
  rw [Bool.and_eq_true_iff, Bool.and_eq_true_iff] at h
  obtain ⟨⟨-, hstart⟩, hroot⟩ := h
  refine ⟨fun hname => ?_, fun hname => ?_⟩
  · subst hname
    rw [bne_self_eq_false, Bool.false_or, beq_iff_eq] at hstart
    exact eq_singleton_of_map hstart
  · subst hname
    rw [bne_self_eq_false, Bool.false_or, Bool.and_eq_true_iff, beq_iff_eq] at hroot
    obtain ⟨hlast, hfirst⟩ := hroot
    cases ts with
    | nil => cases hlast
    | cons opening rest =>
      obtain ⟨inner, hinner⟩ := List.getLast?_eq_some_iff.mp hlast
      obtain ⟨inner, ending, rfl, rfl, hending⟩ := List.map_eq_append_iff.mp hinner
      rw [eq_singleton_of_map hending]
      exact ⟨opening, inner, rfl, List.isPrefixOf_iff_prefix.mp hfirst⟩

theorem threads_of_check {name : String} {ts : List String}
    (h : threads (spine.map String.toList) startSymbol.toList rootRule.toList rootOpening.toList
      rootEnd.toList name.toList (ts.map String.toList) = true) : Threads name ts := by
  have hends := ends_of_check h
  refine ⟨?_, hends.start, hends.root⟩
  have hcount : (ts.map String.toList).countP (spine.map String.toList).contains =
      ts.countP spine.contains := by
    rw [List.countP_map]
    exact List.countP_congr fun t _ => by
      rw [Function.comp_apply, contains_map_toList]
  unfold threads at h
  rw [Bool.and_eq_true_iff, Bool.and_eq_true_iff] at h
  obtain ⟨⟨honce, -⟩, -⟩ := h
  rw [beq_iff_eq, hcount, contains_map_toList] at honce
  rw [honce]
  exact if_congr List.contains_iff_mem rfl rfl

/-- a name that stands before an alternative -/
theorem row_of_mem {rules : List (String × List String)} {name : String}
    (h : name.toList ∈ rules.flatMap fun r => r.2.map fun _ => r.1.toList) :
    ∃ r ∈ rules, r.1 = name ∧ r.2 ≠ [] := by
  obtain ⟨r, hr, hin⟩ := List.mem_flatMap.mp h
  obtain ⟨text, htext, hname⟩ := List.mem_map.mp hin
  exact ⟨r, hr, String.toList_inj.mp hname, List.ne_nil_of_mem htext⟩

/-- a name of letters that is not the payload's -/
structure IsFrameName (name : String) : Prop where
  ne_nil : name.toList ≠ []
  letters : ∀ c ∈ name.toList, isNameChar c = true
  ne_payload : name ≠ payloadRule

/-- `IsFrameName` on characters -/
def isFrameName (payload name : List Char) : Bool :=
  !name.isEmpty && name.all isNameChar && name != payload

theorem isFrameName_of_check {name : String}
    (h : isFrameName payloadRule.toList name.toList = true) : IsFrameName name := by
  unfold isFrameName at h
  rw [Bool.and_eq_true_iff, Bool.and_eq_true_iff] at h
  obtain ⟨⟨hne, hletters⟩, hpayload⟩ := h
  refine ⟨fun hnil => ?_, List.all_eq_true.mp hletters, fun heq => ?_⟩
  · rw [hnil] at hne
    cases hne
  · rw [heq, bne_self_eq_false] at hpayload
    cases hpayload

/-- the rules of a fuzzing page, but for the payload -/
def frameRules : List (String × List String) := sharedRules ++ fuzzingRules

set_option maxRecDepth 100000 in
theorem frameRules_checked :
    checkRows (isFrameName payloadRule.toList) (threads (spine.map String.toList)
      startSymbol.toList rootRule.toList rootOpening.toList rootEnd.toList)
      (decoded frameRules) = true := by
  simp only [frameRules, sharedRules, elements, styles, drawings, fuzzingRules, spine, startSymbol,
    rootRule, payloadRule, rootOpening, rootEnd, decoded, List.map_append, List.map_cons,
    List.map_nil, String.toList_append, toList_of_eq rfl]
  decide +kernel

set_option maxRecDepth 100000 in
theorem spine_checked :
    (spine.map String.toList).all
      (payloadRule.toList :: frameRules.flatMap fun r => r.2.map fun _ => r.1.toList).contains =
      true := by
  simp only [frameRules, sharedRules, elements, styles, drawings, fuzzingRules, spine, startSymbol,
    rootRule, payloadRule, List.flatMap_append, List.flatMap_cons, List.flatMap_nil, List.map_cons,
    List.map_nil, toList_of_eq rfl]
  decide +kernel

theorem frame_name {r : String × List String} (hr : r ∈ frameRules) : IsFrameName r.1 :=
  isFrameName_of_check (forall_rows frameRules_checked r hr).1

theorem frame_threads {r : String × List String} (hr : r ∈ frameRules) {text : String}
    (htext : text ∈ r.2) {ts : List String} (hts : ts ∈ Notation.tokens text) : Threads r.1 ts :=
  threads_of_check ((forall_rows frameRules_checked r hr).2 text htext ts hts)

/-- every rule on the spine has an alternative in the tables, except for the payload's -/
theorem frame_of_spine {name : String} (h : name ∈ spine) (hne : name ≠ payloadRule) :
    ∃ r ∈ frameRules, r.1 = name ∧ r.2 ≠ [] := by
  have hmem := List.all_eq_true.mp spine_checked _ (List.mem_map_of_mem h)
  rcases List.mem_cons.mp (List.contains_iff_mem.mp hmem) with heq | hrow
  · exact absurd (String.toList_inj.mp heq) hne
  · exact row_of_mem hrow

end PageFuzz.Page
