import PageFuzz.Proofs.Derivation.Language
import PageFuzz.Proofs.Grammar.History
import PageFuzz.Proofs.Page.Root

/-!
# Pages with frames

A tree is grown from its leaves up, one row of the tables after another.  The rows on the way to a
frame set are the same in both flavours of pages, but for what the head begins with and for the set
itself, so both have their pages with frames from one lemma.

* `Grows`, `RowGrows`   trees for a name, and for the names in a row of tokens;
* `Grows.row`           a row of the tables under its name;
* `Framed`              the rows on the way to a frame set;
* `grows_page`          a page, when the row of the set is grown.
-/

namespace PageFuzz.Page

open Draft

/-! ## growing a tree -/

/-- There is a tree for the name with these answers, these leaves and this nesting. -/
def Grows (g : Grammar) (name : String) (picks : List Nat) (leaves : List String) (levels : Nat) :
    Prop :=
  ∃ tree : g.Tree name, tree.picks = picks ∧ tree.leaves = leaves ∧ tree.nesting = levels

/-- the same of a row of tokens, some of which are names -/
def RowGrows (g : Grammar) (names ts : List String) (picks : List Nat) (leaves : List String)
    (levels : Nat) : Prop :=
  ∃ forest : g.Forest (ts.map (classify names)), forest.draws.map (·.pick) = picks ∧
    forest.leaves = leaves ∧ forest.nesting = levels

section
variable {g : Grammar} {names ts leaves : List String} {picks : List Nat} {levels : Nat}

theorem rowGrows_nil : RowGrows g names [] [] [] 0 := ⟨.nil, rfl, rfl, rfl⟩

theorem RowGrows.texts (h : RowGrows g names ts picks leaves levels) {texts : List String}
    (htexts : ∀ t ∈ texts, classify names t = .terminal t) :
    RowGrows g names (texts ++ ts) picks (texts ++ leaves) levels := by
  induction texts with
  | nil => exact h
  | cons t texts ih =>
    obtain ⟨forest, hpicks, hleaves, hlevels⟩ := ih fun u hu => htexts u (List.mem_cons_of_mem t hu)
    rw [RowGrows, List.cons_append, List.map_cons, htexts t List.mem_cons_self]
    exact ⟨.terminal t forest, hpicks, congrArg (t :: ·) hleaves, hlevels⟩

theorem RowGrows.name (h : RowGrows g names ts picks leaves levels) {name : String}
    (hname : name ∈ names) {picks' : List Nat} {leaves' : List String} {levels' : Nat}
    (htree : Grows g name picks' leaves' levels') :
    RowGrows g names (name :: ts) (picks' ++ picks) (leaves' ++ leaves) (max levels' levels) := by
  obtain ⟨forest, rfl, rfl, rfl⟩ := h
  obtain ⟨tree, rfl, rfl, rfl⟩ := htree
  rw [RowGrows, List.map_cons, classify_of_contains hname]
  exact ⟨.nonterminal tree forest, List.map_append, rfl, rfl⟩

/-- a row without names -/
theorem rowGrows_texts (hts : ∀ t ∈ ts, classify names t = .terminal t) :
    RowGrows g names ts [] ts 0 := by
  have hrow : RowGrows g names (ts ++ []) [] (ts ++ []) 0 := rowGrows_nil.texts hts
  rwa [List.append_nil] at hrow

/-- a choice that the tables offer -/
theorem Grows.row {f : Flavour} (hg : grammar f = .ok g) {name : String} {i : Nat}
    (h : (under (declarations f) name)[i]? = some (.tokens ts))
    (hrow : RowGrows g (namesOf (declarations f)) ts picks leaves levels) :
    Grows g name (i :: picks) leaves (levels + 1) := by
  obtain ⟨forest, rfl, rfl, rfl⟩ := hrow
  have halts := (alternatives?_of_build hg name).trans (if_pos (mem_namesOf_of_under h))
  refine Grammar.exists_tree halts ?_ forest
  rw [List.getElem?_map, h]
  rfl

end

/-! ## on the way to the frames -/

/-- the leaves of a base element -/
def baseLeaves : List String := ["<base", "href=\"http://127.0.0.1\"", "target=\"_parent\">"]

/-- the leaves of a frame -/
def frameLeaves : List String :=
  ["<frame", "frameborder=\"1\"", "longdesc=\"w3s.txt\"", "marginheight=\"50\"",
    "marginwidth=\"25\"", "name=\"frame_a\"", "noresize=\"noresize\"", "scrolling=\"yes\"",
    "src=\"http://127.0.0.1\">"]

/-- The rows on the way to a frame set, with the texts that the head begins with and the row of the
set. -/
structure Framed (rows : String → List Pending) (head set : List String) : Prop where
  start : (rows startSymbol)[0]? = some (.tokens [rootRule])
  root : (rows rootRule)[0]? = some (.tokens ["<html>", "html_content", rootEnd])
  inner : (rows "html_content")[1]? = some (.tokens ["head_tag", "frameset_tag"])
  head : (rows "head_tag")[0]? = some (.tokens (head ++ ["head_content", "</head>"]))
  content : (rows "head_content")[0]? = some (.tokens ["base_tag"])
  base : (rows "base_tag")[0]? = some (.tokens baseLeaves)
  set : (rows "frameset_tag")[0]? = some (.tokens set)
  frame : (rows "frameset_content")[0]? = some (.tokens frameLeaves)

section
variable {f : Flavour} {g : Grammar} {head set : List String}
  (hg : grammar f = .ok g) (hrows : Framed (under (declarations f)) head set)
  (hletters : ∀ name ∈ namesOf (declarations f), ∀ c ∈ name.toList, isNameChar c = true)

include hg hrows hletters

theorem grows_frame : Grows g "frameset_content" [0] frameLeaves 1 := by
  have hcheck : ∀ t ∈ frameLeaves, t.toList.all isNameChar = false := by decide
  exact .row hg hrows.frame (rowGrows_texts fun t ht => classify_of_letters hletters (hcheck t ht))

/-- A page with one set of frames, and with a base element in its head. -/
theorem grows_page (hhead : ∀ t ∈ head, t.toList.all isNameChar = false) {picks : List Nat}
    {leaves : List String} (hset : RowGrows g (namesOf (declarations f)) set picks leaves 1) :
    Grows g startSymbol ([0, 0, 1, 0, 0, 0, 0] ++ picks)
      ("<html>" :: (head ++ baseLeaves ++ "</head>" :: leaves ++ ["</html>"])) 6 := by
  have text : ∀ {t : String}, t.toList.all isNameChar = false →
      ∀ u ∈ [t], classify (namesOf (declarations f)) u = .terminal u := by
    intro t ht u hu
    rw [List.mem_singleton.mp hu]
    exact classify_of_letters hletters ht
  have known : ∀ {name : String} {i : Nat} {p : Pending},
      (under (declarations f) name)[i]? = some p → name ∈ namesOf (declarations f) :=
    mem_namesOf_of_under
  have hbaseTexts : ∀ t ∈ baseLeaves, t.toList.all isNameChar = false := by decide
  have hbase := Grows.row hg hrows.base
    (rowGrows_texts fun t ht => classify_of_letters hletters (hbaseTexts t ht))
  have hcontent := Grows.row hg hrows.content (rowGrows_nil.name (known hrows.base) hbase)
  have hheadRow := ((rowGrows_nil.texts (text (t := "</head>") (by decide))).name
    (known hrows.content) hcontent).texts fun t ht => classify_of_letters hletters (hhead t ht)
  have hheadTag := Grows.row hg hrows.head hheadRow
  have hsetTag := Grows.row hg hrows.set hset
  have hinner := Grows.row hg hrows.inner
    ((rowGrows_nil.name (known hrows.set) hsetTag).name (known hrows.head) hheadTag)
  have hroot := Grows.row hg hrows.root
    (((rowGrows_nil.texts (text (t := rootEnd) (by decide))).name (known hrows.inner)
      hinner).texts (text (t := "<html>") (by decide)))
  have hpage := Grows.row hg hrows.start (rowGrows_nil.name (known hrows.root) hroot)
  simpa [rootEnd] using hpage

end

end PageFuzz.Page
