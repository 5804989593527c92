import Mathlib
import PageFuzz.Coverage.Scanner
import PageFuzz.Proofs.Markup.Walk

/-!
# The names in a tree

The walk over a tree records names at start tags and at tags that close themselves, and nowhere
else.  What it has recorded in the end is the union of what these tags say: the names that their own
name nodes spell, and those that the first name node of each of their attributes spells.

* `trim_append`          a text without the blanks around it;
* `Spells`               a name as it stands in a text;
* `nameOf_eq_some_iff`   a node names what its text spells;
* `Spells.isClean`       names have no blank ends and no capitals;
* `mem_foldl`            what a row of steps has added to a set;
* `mem_namesIn`          the names in a tree are those that the parts of its tags say;
* `NamesOfTree`          how the names of a page come about from the tree of the page;
* `extract_exact`        what a scanner makes of a page, whatever its parser has seen before.
-/

namespace PageFuzz

/-! ## texts without the blanks around them -/

namespace Text

/-- Neither end of a text is blank. -/
structure Bare (core : List Char) : Prop where
  first : ∀ c ∈ core.head?, isBlank c = false
  last : ∀ c ∈ core.getLast?, isBlank c = false

theorem head_dropWhile_blank (cs : List Char) :
    ∀ c ∈ (cs.dropWhile isBlank).head?, isBlank c = false := by
  intro c hc
  have hnot := List.head?_dropWhile_not isBlank cs
  rw [Option.mem_def.mp hc] at hnot
  exact hnot

theorem dropWhile_blank {front rest : List Char} (hfront : ∀ c ∈ front, isBlank c = true)
    (hrest : ∀ c ∈ rest.head?, isBlank c = false) : (front ++ rest).dropWhile isBlank = rest := by
  rw [List.dropWhile_append_of_pos hfront]
  cases rest with
  | nil => rfl
  | cons c rest =>
    have hc := hrest c rfl
    rw [List.dropWhile_cons_of_neg (by rw [hc]; exact Bool.false_ne_true)]

theorem trim_append {front core back : List Char} (hfront : ∀ c ∈ front, isBlank c = true)
    (hback : ∀ c ∈ back, isBlank c = true) (hne : core ≠ []) (hbare : Bare core) :
    trim (front ++ core ++ back) = core := by
  have hleft : (front ++ core ++ back).dropWhile isBlank = core ++ back := by
    rw [List.append_assoc]
    refine dropWhile_blank hfront ?_
    rw [List.head?_append_of_ne_nil _ hne]
    exact hbare.first
  have hright : (core ++ back).reverse.dropWhile isBlank = core.reverse := by
    rw [List.reverse_append]
    refine dropWhile_blank (fun c hc => hback c (List.mem_reverse.mp hc)) ?_
    rw [List.head?_reverse]
    exact hbare.last
  rw [trim, hleft, hright, List.reverse_reverse]

/-- What is cut off is blank, and neither end of what stays is. -/
theorem exists_around_trim (cs : List Char) : ∃ front back, cs = front ++ trim cs ++ back ∧
    (∀ c ∈ front, isBlank c = true) ∧ (∀ c ∈ back, isBlank c = true) ∧ Bare (trim cs) := by
  have hsplit : ∀ ds : List Char, ∃ front, ds = front ++ ds.dropWhile isBlank ∧
      ∀ c ∈ front, isBlank c = true := fun ds =>
    ⟨ds.takeWhile isBlank, List.takeWhile_append_dropWhile.symm,
      fun _ hc => List.mem_takeWhile_imp hc⟩
  obtain ⟨front, hcs, hfront⟩ := hsplit cs
  obtain ⟨back, hrest, hback⟩ := hsplit (cs.dropWhile isBlank).reverse
  have hjoined : cs.dropWhile isBlank = trim cs ++ back.reverse := by
    rw [trim, ← List.reverse_append, ← hrest, List.reverse_reverse]
  refine ⟨front, back.reverse, ?_, hfront, fun c hc => hback c (List.mem_reverse.mp hc), ?_, ?_⟩
  · rw [List.append_assoc, ← hjoined]
    exact hcs
  · intro c hc
    refine head_dropWhile_blank cs c ?_
    have hne : trim cs ≠ [] := fun h => by rw [h] at hc; cases hc
    rw [hjoined, List.head?_append_of_ne_nil _ hne]
    exact hc
  · intro c hc
    rw [trim, List.getLast?_reverse] at hc
    exact head_dropWhile_blank _ c hc

end Text

namespace Coverage

open Text (isBlank trim Bare)
open Markup (Located Cursor)

/-! ## names as they stand in a text -/

/-- A text spells a name: between blanks, and with capitals for small letters. -/
structure Spells (text name : String) : Prop where
  core : ∃ front core back, text.toList = front ++ core ++ back ∧ (∀ c ∈ front, isBlank c = true) ∧
    (∀ c ∈ back, isBlank c = true) ∧ core ≠ [] ∧ Bare core ∧
      name = String.ofList (core.map Char.toLower)

theorem nameOf_eq_some_iff {n : Markup.Node} {name : String} :
    nameOf n = some name ↔ Spells n.text name := by
  constructor
  · intro h
    obtain ⟨front, back, htext, hfront, hback, hbare⟩ := Text.exists_around_trim n.text.toList
    unfold nameOf at h
    split at h
    · cases h
    · next hne =>
      cases h
      exact ⟨front, _, back, htext, hfront, hback, hne, hbare, rfl⟩
  · rintro ⟨front, core, back, htext, hfront, hback, hne, hbare, rfl⟩
    have htrim : trim n.text.toList = core := by
      rw [htext, Text.trim_append hfront hback hne hbare]
    unfold nameOf
    rw [htrim]
    split
    · exact absurd rfl hne
    · rfl

/-- A name is not empty, neither of its ends is blank, and no ASCII letter in it is a capital. -/
structure IsClean (name : String) : Prop where
  ne_nil : name.toList ≠ []
  bare : Bare name.toList
  not_upper : ∀ c ∈ name.toList, ¬ ('A' ≤ c ∧ c ≤ 'Z')

/-- A small letter is written for a capital, and any other character for itself. -/
theorem toLower_cases (c : Char) :
    (97 ≤ c.toLower.toNat ∧ c.toLower.toNat ≤ 122) ∨ (c.toLower = c ∧ ¬ ('A' ≤ c ∧ c ≤ 'Z')) := by
  unfold Char.toLower
  split
  · next h =>
    left
    have hlow : 65 ≤ c.val.toNat := UInt32.le_iff_toNat_le.mp h.1
    have hhigh : c.val.toNat ≤ 90 := UInt32.le_iff_toNat_le.mp h.2
    have hval : (c.val + ('a'.val - 'A'.val)).toNat = c.val.toNat + 32 := by
      rw [UInt32.toNat_add, show ('a'.val - 'A'.val).toNat = 32 from rfl]
      omega
    rw [Char.toNat, hval]
    omega
  · next h => exact .inr ⟨rfl, h⟩

theorem not_upper_toLower (c : Char) : ¬ ('A' ≤ c.toLower ∧ c.toLower ≤ 'Z') := by
  rcases toLower_cases c with ⟨hlow, -⟩ | ⟨hsame, hnot⟩
  · rintro ⟨-, hle⟩
    have hle' : c.toLower.toNat ≤ 90 := UInt32.le_iff_toNat_le.mp hle
    omega
  · rw [hsame]
    exact hnot

theorem isBlank_toLower {c : Char} (h : isBlank c = false) : isBlank c.toLower = false := by
  rcases toLower_cases c with ⟨hlow, hhigh⟩ | ⟨hsame, -⟩
  · simp only [isBlank, Bool.or_eq_false_iff, Bool.and_eq_false_iff, decide_eq_false_iff_not,
      beq_eq_false_iff_ne]
    omega
  · rw [hsame]
    exact h

theorem Spells.isClean {text name : String} (h : Spells text name) : IsClean name := by
  obtain ⟨front, core, back, -, -, -, hne, hbare, rfl⟩ := h
  have hblank : ∀ {o : Option Char}, (∀ c ∈ o, isBlank c = false) →
      ∀ c ∈ o.map Char.toLower, isBlank c = false := by
    rintro o ho c hc
    obtain ⟨d, hd, rfl⟩ := Option.map_eq_some_iff.mp hc
    exact isBlank_toLower (ho d hd)
  constructor
  · rw [String.toList_ofList]
    exact fun h => hne (List.map_eq_nil_iff.mp h)
  · rw [String.toList_ofList]
    constructor
    · rw [List.head?_map]
      exact hblank hbare.first
    · rw [List.getLast?_map]
      exact hblank hbare.last
  · intro c hc
    rw [String.toList_ofList] at hc
    obtain ⟨d, -, rfl⟩ := List.mem_map.mp hc
    exact not_upper_toLower d

/-! ## what is recorded -/

theorem mem_addName {x : String} {name : Option String} {s : NameSet} :
    x ∈ (addName name s).names ↔ name = some x ∨ x ∈ s.names := by
  cases name with
  | none => simp [addName]
  | some name => rw [addName, NameSet.mem_insert, Option.some.injEq, eq_comm]

/-- A row of steps that each add some names to a set has added all of them. -/
theorem mem_foldl {β : Type} {f : PageNames → β → PageNames} {view : PageNames → NameSet}
    {adds : β → String → Prop}
    (hf : ∀ names b x, x ∈ (view (f names b)).names ↔ adds b x ∨ x ∈ (view names).names)
    (bs : List β) (names : PageNames) (x : String) :
    x ∈ (view (bs.foldl f names)).names ↔ (∃ b ∈ bs, adds b x) ∨ x ∈ (view names).names := by
  induction bs generalizing names with
  | nil => simp
  | cons b bs ih =>
    rw [List.foldl_cons, ih, hf, ← or_assoc, List.exists_mem_cons_iff, or_comm (a := adds b x)]

/-- the part of a tag is its name, and spells it -/
def NamesTag (part : Markup.Node) (x : String) : Prop :=
  part.kind = .tagName ∧ nameOf part = some x

/-- the part of a tag is an attribute, and its name node spells the name -/
def NamesAttribute (part : Markup.Node) (x : String) : Prop :=
  part.kind = .attribute ∧ attributeName part = some x

theorem mem_tags_recordPart (names : PageNames) (part : Markup.Node) (x : String) :
    x ∈ (recordPart names part).tags.names ↔ NamesTag part x ∨ x ∈ names.tags.names := by
  unfold recordPart NamesTag
  split
  · next h => rw [mem_addName, h]; simp
  · next h => rw [h]; simp
  · next hname _ =>
    have hnot : ¬ (part.kind = .tagName ∧ nameOf part = some x) := fun h => hname h.1
    rw [or_iff_right hnot]

theorem mem_attributes_recordPart (names : PageNames) (part : Markup.Node) (x : String) :
    x ∈ (recordPart names part).attributes.names ↔
      NamesAttribute part x ∨ x ∈ names.attributes.names := by
  unfold recordPart NamesAttribute
  split
  · next h => rw [h]; simp
  · next h => rw [mem_addName, h]; simp
  · next _ hattribute =>
    have hnot : ¬ (part.kind = .attribute ∧ attributeName part = some x) := fun h => hattribute h.1
    rw [or_iff_right hnot]

/-- A node that is no tag records nothing. -/
theorem record_of_not_counted {n : Markup.Node} (h : isCounted n = false) (names : PageNames) :
    record names n = names := by
  rw [record, h, if_neg Bool.false_ne_true]

/-- A tag records what its parts name. -/
theorem mem_record {view : PageNames → NameSet} {gives : Markup.Node → String → Prop}
    (hpart : ∀ names part x,
      x ∈ (view (recordPart names part)).names ↔ gives part x ∨ x ∈ (view names).names)
    (names : PageNames) (n : Markup.Node) (x : String) :
    x ∈ (view (record names n)).names ↔
      (isCounted n = true ∧ ∃ part ∈ n.namedChildren, gives part x) ∨ x ∈ (view names).names := by
  cases hcounted : isCounted n with
  | false => rw [record_of_not_counted hcounted, or_iff_right fun h => Bool.false_ne_true h.1]
  | true =>
    rw [record, hcounted, if_pos rfl, mem_foldl hpart]
    simp only [true_and]

/-- The names of one kind in a tree are those that the parts of its tags say. -/
theorem mem_namesIn {view : PageNames → NameSet} {gives : Markup.Node → String → Prop}
    (hempty : (view .empty).names = [])
    (hpart : ∀ names part x,
      x ∈ (view (recordPart names part)).names ↔ gives part x ∨ x ∈ (view names).names)
    (root : Markup.Node) (x : String) :
    x ∈ (view (namesIn root)).names ↔
      ∃ tag ∈ root.preorder, isCounted tag = true ∧ ∃ part ∈ tag.namedChildren, gives part x := by
  rw [namesIn, Markup.fold_eq, mem_foldl (mem_record hpart), hempty]
  exact or_iff_left List.not_mem_nil

/-! ## nodes by their places -/

section
variable {page x : String}

/-- a start tag, or a tag that closes itself -/
def IsTag (n : Located) : Prop := n.kind = .startTag ∨ n.kind = .selfClosingTag

/-- what stands in the page at a node spells a name -/
def SpelledAt (page : String) (n : Located) (x : String) : Prop :=
  ∃ text, n.text? page = some text ∧ Spells text x

/-- a tag of the tree has the name -/
def HasTag (page : String) (root : Located) (x : String) : Prop :=
  ∃ tag ∈ root.preorder, IsTag tag ∧
    ∃ part ∈ tag.namedChildren, part.kind = .tagName ∧ SpelledAt page part x

/-- a tag of the tree has an attribute of that name; an attribute has the first name in it -/
def HasAttribute (page : String) (root : Located) (x : String) : Prop :=
  ∃ tag ∈ root.preorder, IsTag tag ∧
    ∃ part ∈ tag.namedChildren, part.kind = .attribute ∧
      ∃ name, part.namedChildren.find? (·.kind == .attributeName) = some name ∧
        SpelledAt page name x

theorem isCounted_inPage {n : Located} : isCounted (n.inPage page) = true ↔ IsTag n := by
  rw [isCounted, Located.kind_inPage, Bool.or_eq_true, beq_iff_eq, beq_iff_eq, IsTag]

theorem nameOf_inPage {n : Located} : nameOf (n.inPage page) = some x ↔ SpelledAt page n x := by
  rw [nameOf_eq_some_iff, Located.text_inPage, SpelledAt]
  cases n.text? page with
  | some text => simp
  | none =>
    -- bytes that are no text spell nothing, as an empty text does
    refine ⟨fun h => ?_, fun ⟨text, htext, _⟩ => by cases htext⟩
    obtain ⟨front, core, back, hempty, -, -, hne, -⟩ := h
    have hnil : front ++ core ++ back = [] := hempty.symm
    exact absurd (List.append_eq_nil_iff.mp (List.append_eq_nil_iff.mp hnil).1).2 hne

theorem namesTag_inPage {part : Located} :
    NamesTag (part.inPage page) x ↔ part.kind = .tagName ∧ SpelledAt page part x := by
  rw [NamesTag, Located.kind_inPage, nameOf_inPage]

theorem namesAttribute_inPage {part : Located} :
    NamesAttribute (part.inPage page) x ↔ part.kind = .attribute ∧
      ∃ name, part.namedChildren.find? (·.kind == .attributeName) = some name ∧
        SpelledAt page name x := by
  have hkind : (fun n : Markup.Node => n.kind == .attributeName) ∘ Located.inPage page =
      fun n => n.kind == .attributeName := funext fun n => by
    rw [Function.comp_apply, Located.kind_inPage]
  rw [NamesAttribute, Located.kind_inPage, attributeName, Located.namedChildren_inPage,
    List.find?_map, hkind, Option.bind_eq_some_iff]
  simp only [Option.map_eq_some_iff, exists_exists_and_eq_and, nameOf_inPage]

/-- What a tree says by its tags, whichever part of them it is. -/
theorem exists_tag_inPage {gives : Markup.Node → String → Prop} {root : Located} :
    (∃ tag ∈ (root.inPage page).preorder, isCounted tag = true ∧
        ∃ part ∈ tag.namedChildren, gives part x) ↔
      ∃ tag ∈ root.preorder, IsTag tag ∧
        ∃ part ∈ tag.namedChildren, gives (part.inPage page) x := by
  simp only [Located.preorder_inPage, Located.namedChildren_inPage, List.mem_map,
    exists_exists_and_eq_and, isCounted_inPage]

theorem mem_tags_inPage {root : Located} :
    x ∈ (namesIn (root.inPage page)).tags.names ↔ HasTag page root x := by
  rw [mem_namesIn rfl mem_tags_recordPart, exists_tag_inPage]
  simp only [namesTag_inPage, HasTag]

theorem mem_attributes_inPage {root : Located} :
    x ∈ (namesIn (root.inPage page)).attributes.names ↔ HasAttribute page root x := by
  rw [mem_namesIn rfl mem_attributes_recordPart, exists_tag_inPage]
  simp only [namesAttribute_inPage, HasAttribute]

theorem isClean_of_mem {root : Located} (h : HasTag page root x ∨ HasAttribute page root x) :
    IsClean x := by
  have hclean : ∀ {n : Located}, SpelledAt page n x → IsClean x := fun ⟨_, _, hspells⟩ =>
    hspells.isClean
  rcases h with ⟨_, _, _, _, _, _, hname⟩ | ⟨_, _, _, _, _, _, _, _, hname⟩
  · exact hclean hname
  · exact hclean hname

end

/-! ## what a scanner makes of a page -/

/-- How the names of a page come about: the walk comes to every node once, and records names at tags
and nowhere else. -/
structure NamesOfTree (page : String) (root : Located) (names : PageNames) : Prop where
  walk : ∃ ts, Markup.WalksOnce (root.inPage page) ts ∧
    (Markup.arrivals ts).map Cursor.node = root.preorder.map (Located.inPage page) ∧
    names = ((Markup.arrivals ts).map Cursor.node).foldl record .empty
  others : ∀ n ∈ root.preorder, ¬ IsTag n → ∀ earlier, record earlier (n.inPage page) = earlier
  mem_tags : ∀ x, x ∈ names.tags.names ↔ HasTag page root x
  mem_attributes : ∀ x, x ∈ names.attributes.names ↔ HasAttribute page root x
  clean : ∀ x, x ∈ names.tags.names ∨ x ∈ names.attributes.names → IsClean x

theorem namesOfTree (page : String) (root : Located) :
    NamesOfTree page root (namesIn (root.inPage page)) where
  walk := by
    obtain ⟨ts, hts⟩ := Markup.exists_walksOnce (root.inPage page)
    exact ⟨ts, hts, hts.nodes_eq.trans (Located.preorder_inPage page root),
      Markup.foldFrom_of_run record .empty hts.run⟩
  others n _ hn earlier :=
    record_of_not_counted (Bool.eq_false_iff.mpr fun h => hn (isCounted_inPage.mp h)) earlier
  mem_tags _ := mem_tags_inPage
  mem_attributes _ := mem_attributes_inPage
  clean _ h := isClean_of_mem (h.imp mem_tags_inPage.mp mem_attributes_inPage.mp)

namespace Scanner

variable {σ : Type}

/-- A scanner keeps its parser. -/
theorem parse_after (s : Scanner σ) (pages : List String) : (s.after pages).parse = s.parse := by
  induction pages generalizing s with
  | nil => rfl
  | cons page pages ih => exact ih (s.extract page).2

/-- A parser that tells from the page alone where the nodes are makes the same of it at any time. -/
theorem extract_after_locating {parse : σ → String → Option Located × σ}
    {tree : String → Option Located} (htree : ∀ state page, (parse state page).1 = tree page)
    (state : σ) (v : Vocabulary) (earlier : List String) (page : String) :
    (((locating parse state v).after earlier).extract page).1 =
      namesOf ((tree page).map (Located.inPage page)) := by
  rw [extract, parse_after]
  simp only [locating, htree]

/-- **The names of a page**, whatever tree the parser finds in it: those of the tree, and none if
there is no tree.  What the scanner has read before makes no difference. -/
theorem extract_exact (parse : σ → String → Option Located × σ) (tree : String → Option Located)
    (htree : ∀ state page, (parse state page).1 = tree page) (state : σ) (v : Vocabulary)
    (earlier : List String) (page : String) :
    let s := locating parse state v
    let names := ((s.after earlier).extract page).1
    names = (s.extract page).1 ∧ (tree page = none → names = .empty) ∧
      ∀ root, tree page = some root → NamesOfTree page root names := by
  intro s names
  have hnames : names = namesOf ((tree page).map (Located.inPage page)) :=
    extract_after_locating htree state v earlier page
  refine ⟨?_, fun hnone => ?_, fun root hroot => ?_⟩
  · rw [hnames]
    exact (extract_after_locating htree state v [] page).symm
  · rw [hnames, hnone]
    rfl
  · rw [hnames, hroot]
    exact namesOfTree page root

/-- the tree of `</i><A B=x>`: an end tag, and an element that is not closed -/
def openTagTree : Located :=
  .mk .document true 0 11
    [.mk .strayEndTag true 0 4
      [.mk .punctuation false 0 2 [], .mk .strayName true 2 3 [], .mk .punctuation false 3 4 []],
    .mk .element true 4 11
      [.mk .startTag true 4 11
        [.mk .punctuation false 4 5 [], .mk .tagName true 5 6 [],
        .mk .attribute true 7 10
          [.mk .attributeName true 7 8 [], .mk .punctuation false 8 9 [],
          .mk .attributeValue true 9 10 []],
        .mk .punctuation false 10 11 []],
      .mk .endTag true 11 11 []]]

/-- A parser that counts the pages it has seen. -/
theorem extract_exact_of_open_tag :
    let parse := fun (count : Nat) (page : String) =>
      (if page = "</i><A B=x>" then some openTagTree else none, count + 1)
    let s := locating parse 0 ⟨["a"], [], ["b"]⟩
    let names := ((s.after ["<u>", ""]).extract "</i><A B=x>").1
    names = (s.extract "</i><A B=x>").1 ∧ NamesOfTree "</i><A B=x>" openTagTree names ∧
      HasTag "</i><A B=x>" openTagTree "a" ∧ ¬ HasTag "</i><A B=x>" openTagTree "i" ∧
      HasAttribute "</i><A B=x>" openTagTree "b" ∧
      ¬ HasAttribute "</i><A B=x>" openTagTree "x" := by
  intro parse s names
  have hparse : ∀ count page, (parse count page).1 = (fun page => (parse 0 page).1) page :=
    fun _ _ => rfl
  obtain ⟨hsame, -, hsome⟩ := extract_exact parse (fun page => (parse 0 page).1) hparse 0
    ⟨["a"], [], ["b"]⟩ ["<u>", ""] "</i><A B=x>"
  have htree : NamesOfTree "</i><A B=x>" openTagTree names := hsome openTagTree rfl
  have hnames : names = ⟨.ofList ["a"], .ofList ["b"]⟩ := by
    refine (extract_after_locating hparse 0 ⟨["a"], [], ["b"]⟩ ["<u>", ""]
      "</i><A B=x>").trans ?_
    show namesIn (openTagTree.inPage "</i><A B=x>") = _
    rw [namesIn, Markup.fold_eq]
    cbv
  refine ⟨hsame, htree, ?_, ?_, ?_, ?_⟩
  · rw [← htree.mem_tags, hnames]
    decide
  · rw [← htree.mem_tags, hnames]
    decide
  · rw [← htree.mem_attributes, hnames]
    decide
  · rw [← htree.mem_attributes, hnames]
    decide

end Scanner

end Coverage

end PageFuzz
