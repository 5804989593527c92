import Mathlib
import PageFuzz.Proofs.Page.Frames

/-!
# The payload of a page

The grammar of fuzzing pages is that of the frame around the payload, with one rule more, whose
only alternative is the payload itself as a literal.

* `grammar_fuzzing`    the grammar is built whatever the payload is;
* `twins_fuzzing`      the payload is in no other rule;
* `balanced_fuzzing`   every derivation of a page expands the payload's rule once.
-/

namespace PageFuzz.Page

open Draft

/-- what is declared around the payload -/
def frameDraft : Draft := ofDeclarations (declared frameRules)

/-- the rules of a fuzzing page -/
def ruleNames : List String := frameDraft.names ++ [payloadRule]

def fuzzingGrammar (payload : String) : Grammar :=
  ⟨frameDraft.rules.map (fun r => (r.1, r.2.map (resolve ruleNames))) ++
    [(payloadRule, [.literal payload])]⟩

/-! ## building -/

theorem mem_declared {rules : List (String × List String)} {decl : Declaration} :
    decl ∈ declared rules ↔ ∃ r ∈ rules, ∃ text ∈ r.2, decl = .spec r.1 text := by
  unfold declared
  rw [List.mem_flatMap]
  refine exists_congr fun r => and_congr_right fun _ => ?_
  rw [List.mem_map]
  exact exists_congr fun text => and_congr_right fun _ => eq_comm

/-- the names of a table, except for those of empty rows -/
theorem exists_declared {rules : List (String × List String)} {name : String} :
    (∃ decl ∈ declared rules, decl.name = name) ↔ ∃ r ∈ rules, r.1 = name ∧ r.2 ≠ [] := by
  constructor
  · rintro ⟨decl, hdecl, rfl⟩
    obtain ⟨r, hr, text, htext, rfl⟩ := mem_declared.mp hdecl
    exact ⟨r, hr, rfl, List.ne_nil_of_mem htext⟩
  · rintro ⟨r, hr, rfl, hne⟩
    obtain ⟨text, htext⟩ := List.exists_mem_of_ne_nil _ hne
    exact ⟨.spec r.1 text, mem_declared.mpr ⟨r, hr, text, htext, rfl⟩, rfl⟩

theorem mem_names_frameDraft {name : String} :
    name ∈ frameDraft.names ↔ ∃ r ∈ frameRules, r.1 = name ∧ r.2 ≠ [] := by
  unfold frameDraft
  rw [mem_names_ofDeclarations]
  exact exists_declared

/-- what the rules of the frame hold comes from the tables -/
theorem mem_rules_frameDraft {r : String × List Pending} {pending : Pending}
    (hr : r ∈ frameDraft.rules) (hpending : pending ∈ r.2) :
    IsFrameName r.1 ∧ ∃ ts, pending = .tokens ts ∧ Threads r.1 ts := by
  obtain ⟨decl, hdecl, hname, hmem⟩ := declared_of_mem hr hpending
  obtain ⟨row, hrow, text, htext, rfl⟩ := mem_declared.mp hdecl
  obtain ⟨ts, hts, rfl⟩ := List.mem_map.mp hmem
  have hrowName : row.1 = r.1 := hname
  rw [← hrowName]
  exact ⟨frame_name hrow, ts, rfl, frame_threads hrow htext hts⟩

theorem isFrameName_of_mem {name : String} (h : name ∈ frameDraft.names) : IsFrameName name := by
  obtain ⟨r, hr, rfl, -⟩ := mem_names_frameDraft.mp h
  exact frame_name hr

theorem payloadRule_notMem : payloadRule ∉ frameDraft.names :=
  fun h => (isFrameName_of_mem h).ne_payload rfl

theorem rules_fuzzing (payload : String) :
    (ofDeclarations (declarations (.fuzzing payload))).rules =
      frameDraft.rules ++ [(payloadRule, [.explicit (.literal payload)])] := by
  have hsplit : declarations (.fuzzing payload) =
      declared frameRules ++ [.literal payloadRule payload] := rfl
  rw [hsplit, rules_concat, ← frameDraft]
  exact extendRules_of_not_mem _ payloadRule_notMem

theorem names_fuzzing (payload : String) :
    (ofDeclarations (declarations (.fuzzing payload))).names = ruleNames := by
  unfold names
  rw [rules_fuzzing, List.map_append]
  rfl

theorem isBlank_of_isNameChar {c : Char} (h : isNameChar c = true) : Text.isBlank c = false := by
  have hrange : 0x30 ≤ c.toNat ∧ c.toNat ≤ 0x7A := by
    unfold isNameChar at h
    simp only [Bool.or_eq_true, Char.isLower, Char.isDigit, Bool.and_eq_true, decide_eq_true_eq,
      beq_iff_eq, ge_iff_le, UInt32.le_iff_toNat_le, ← Char.toNat_val] at h ⊢
    rcases h with (⟨hlow, hhigh⟩ | ⟨hlow, hhigh⟩) | rfl
    · have hlow : 97 ≤ c.val.toNat := hlow
      have hhigh : c.val.toNat ≤ 122 := hhigh
      omega
    · have hlow : 48 ≤ c.val.toNat := hlow
      have hhigh : c.val.toNat ≤ 57 := hhigh
      omega
    · decide
  unfold Text.isBlank
  simp only [Bool.or_eq_false_iff, Bool.and_eq_false_iff, decide_eq_false_iff_not,
    beq_eq_false_iff_ne]
  omega

theorem isValidName_of_letters {name : String} (hne : name.toList ≠ [])
    (hletters : ∀ c ∈ name.toList, isNameChar c = true) : isValidName name = true := by
  have hsome : name.isEmpty = false := by
    rw [Bool.eq_false_iff, ne_eq, String.isEmpty_iff]
    rintro rfl
    exact hne rfl
  have hblank : name.toList.any Text.isBlank = false := by
    rw [List.any_eq_false]
    intro c hc
    rw [isBlank_of_isNameChar (hletters c hc)]
    exact Bool.false_ne_true
  rw [isValidName, hsome, hblank]
  rfl

theorem sound_fuzzing (payload : String) :
    (ofDeclarations (declarations (.fuzzing payload))).Sound := by
  apply sound_of_declarations
  · intro decl hdecl
    rcases List.mem_append.mp hdecl with hspec | hliteral
    · obtain ⟨r, hr, text, -, rfl⟩ := mem_declared.mp hspec
      have hname := frame_name hr
      exact isValidName_of_letters hname.ne_nil hname.letters
    · rw [List.mem_singleton.mp hliteral]
      show isValidName payloadRule = true
      decide
  · intro name alts hdecl
    rcases List.mem_append.mp hdecl with hspec | hliteral
    · obtain ⟨r, -, text, -, heq⟩ := mem_declared.mp hspec
      cases heq
    · cases List.mem_singleton.mp hliteral

theorem grammar_fuzzing (payload : String) :
    grammar (.fuzzing payload) = .ok (fuzzingGrammar payload) := by
  unfold grammar
  rw [build_of_sound (sound_fuzzing payload), names_fuzzing, rules_fuzzing, List.map_append]
  rfl

/-! ## the payload's rule -/

theorem lookup_payloadRule_frame {α : Type} (resolved : List Pending → α) :
    (frameDraft.rules.map fun r => (r.1, resolved r.2)).lookup payloadRule = none := by
  refine List.lookup_eq_none_iff.mpr fun rule hrule => ?_
  obtain ⟨r, hr, rfl⟩ := List.mem_map.mp hrule
  have hname : r.1 ∈ frameDraft.names := mem_names_of_mem hr
  have hne : payloadRule ≠ r.1 := by
    intro heq
    rw [← heq] at hname
    exact payloadRule_notMem hname
  exact bne_iff_ne.mpr hne

theorem alternatives_payloadRule (payload : String) :
    (fuzzingGrammar payload).alternatives? payloadRule = some [.literal payload] := by
  show List.lookup payloadRule (_ ++ _) = _
  rw [List.lookup_append, lookup_payloadRule_frame, Option.none_or, List.lookup_cons, BEq.rfl]

theorem twins_fuzzing (p q : String) :
    (fuzzingGrammar p).Twins (fuzzingGrammar q) payloadRule p q where
  left := alternatives_payloadRule p
  right := alternatives_payloadRule q
  others name hne := by
    have hother : (name == payloadRule) = false := beq_false_of_ne hne
    show List.lookup name (_ ++ _) = List.lookup name (_ ++ _)
    rw [List.lookup_append, List.lookup_append, List.lookup_cons, List.lookup_cons, hother]

theorem mem_ruleNames {name : String} :
    name ∈ ruleNames ↔ name ∈ frameDraft.names ∨ name = payloadRule := by
  unfold ruleNames
  rw [List.mem_append, List.mem_singleton]

theorem letters_of_mem {name : String} (h : name ∈ ruleNames) :
    ∀ c ∈ name.toList, isNameChar c = true := by
  rcases mem_ruleNames.mp h with hframe | rfl
  · exact (isFrameName_of_mem hframe).letters
  · have hletters : payloadRule.toList.all isNameChar = true := by
      rw [payloadRule, toList_of_eq rfl]
      decide
    exact List.all_eq_true.mp hletters

theorem mem_ruleNames_of_spine {name : String} (h : name ∈ spine) : name ∈ ruleNames := by
  by_cases hne : name = payloadRule
  · exact mem_ruleNames.mpr (.inr hne)
  · exact mem_ruleNames.mpr (.inl (mem_names_frameDraft.mpr (frame_of_spine h hne)))

/-- an alternative is the payload, or a row of tokens from the tables -/
theorem alternative_cases {payload name : String} {alts : List Alternative} {a : Alternative}
    (h : (fuzzingGrammar payload).alternatives? name = some alts) (ha : a ∈ alts) :
    name = payloadRule ∧ a = .literal payload ∨
      name ≠ payloadRule ∧ ∃ ts, a = .sequence (ts.map (classify ruleNames)) ∧ Threads name ts := by
  have hmem : (name, alts) ∈ (fuzzingGrammar payload).rules := Grammar.mem_of_lookup h
  rcases List.mem_append.mp hmem with hframe | hpayload
  · obtain ⟨r, hr, heq⟩ := List.mem_map.mp hframe
    obtain ⟨rfl, rfl⟩ := Prod.mk.inj heq
    obtain ⟨pending, hpending, rfl⟩ := List.mem_map.mp ha
    obtain ⟨hname, ts, rfl, hthreads⟩ := mem_rules_frameDraft hr hpending
    exact .inr ⟨hname.ne_payload, ts, rfl, hthreads⟩
  · obtain ⟨rfl, rfl⟩ := Prod.mk.inj (List.mem_singleton.mp hpayload)
    exact .inl ⟨rfl, List.mem_singleton.mp ha⟩

/-! ## once in every page -/

/-- how often a rule leads to the payload -/
def load (name : String) : Nat := if name ∈ spine then 1 else 0

theorem sum_load (ts : List String) :
    ((ts.filter ruleNames.contains).map load).sum = ts.countP spine.contains := by
  induction ts with
  | nil => rfl
  | cons t ts ih =>
    by_cases hspine : t ∈ spine
    · have hname : ruleNames.contains t = true :=
        List.contains_iff_mem.mpr (mem_ruleNames_of_spine hspine)
      rw [List.filter_cons_of_pos hname, List.map_cons, List.sum_cons, ih, load, if_pos hspine,
        List.countP_cons_of_pos (List.contains_iff_mem.mpr hspine), Nat.add_comm]
    · have hzero : load t = 0 := if_neg hspine
      rw [List.countP_cons_of_neg (mt List.contains_iff_mem.mp hspine), ← ih, List.filter_cons]
      split
      · rw [List.map_cons, List.sum_cons, hzero, Nat.zero_add]
      · rfl

theorem balanced_fuzzing (payload : String) :
    (fuzzingGrammar payload).Balanced payloadRule load := by
  intro name alts hname a ha
  rcases alternative_cases hname ha with ⟨rfl, rfl⟩ | ⟨hne, ts, rfl, hthreads⟩
  · have hpayload : payloadRule ∈ spine := by decide
    rw [if_pos rfl, load, if_pos hpayload]
    rfl
  · have hreferences := references_tokens ruleNames ts
    rw [if_neg hne, Nat.zero_add]
    show load name = ((resolve ruleNames (.tokens ts)).references.map load).sum
    rw [hreferences, sum_load, hthreads.once]
    rfl

/-! ## the ends of a page -/

theorem rooted_fuzzing (payload : String) : Rooted (fuzzingGrammar payload) := by
  apply rooted_of_ends (fun _ => letters_of_mem) (mem_ruleNames_of_spine (by decide))
  intro name hname alts halts a ha
  rcases alternative_cases halts ha with ⟨rfl, -⟩ | ⟨-, ts, rfl, hthreads⟩
  · exact absurd hname (by decide)
  · exact ⟨ts, rfl, hthreads.start, hthreads.root⟩

/-- a page around its payload -/
theorem spell_page {payload : String} (tree : (fuzzingGrammar payload).Tree startSymbol) :
    tree.count payloadRule = 1 ∧ ∃ before after : List String,
      tree.marked payloadRule = before.map some ++ none :: after.map some ∧
      rootOpening.toList <+: (spell before).toList ∧
      (rootEnd ++ " ").toList <:+ (spell after).toList := by
  have hcount : tree.count payloadRule = 1 := tree.count_of_balanced (balanced_fuzzing payload)
  have hnone : (tree.marked payloadRule).count none = 1 := by
    rw [tree.count_none_marked (alternatives_payloadRule payload), hcount]
  obtain ⟨before, after, hmarks⟩ := Grammar.fill_of_count_none hnone
  obtain ⟨opening, inner, hends, hopening⟩ := (rooted_fuzzing payload).marked_page payloadRule tree
  refine ⟨hcount, before, after, hmarks, ?_, ?_⟩
  · cases before with
    | nil =>
      rw [hmarks] at hends
      cases hends
    | cons first before =>
      rw [hmarks] at hends
      obtain rfl : first = opening := Option.some.inj (List.cons.inj hends).1
      exact hopening.trans (prefix_spell_cons first before)
  · have hlast := congrArg List.getLast? (hmarks.symm.trans hends)
    rw [← List.cons_append, List.getLast?_concat] at hlast
    rcases List.eq_nil_or_concat' after with rfl | ⟨after, last, rfl⟩
    · rw [List.map_nil, List.getLast?_concat] at hlast
      cases hlast
    · rw [List.map_append, List.map_singleton, ← List.cons_append, ← List.append_assoc,
        List.getLast?_concat] at hlast
      obtain rfl : last = rootEnd := Option.some.inj (Option.some.inj hlast)
      exact suffix_spell_concat after rootEnd

/-! ## two payloads -/

theorem fill_around (text : String) (before after : List String) :
    spell (Grammar.fill text (before.map some ++ none :: after.map some)) =
      spell before ++ text ++ " " ++ spell after := by
  rw [Grammar.fill_append, Grammar.fill_some, spell_append]
  show spell before ++ spell (text :: Grammar.fill text (after.map some)) = _
  rw [Grammar.fill_some, spell_cons, String.append_assoc, String.append_assoc,
    String.append_assoc]

/-- **Every page carries its payload once, and the payload influences nothing else.**  The grammar
is built whatever the payload is.  If a page is generated from both payloads, for any limits and
from the same state of any chooser, then the pages differ in the payload alone, which stands
between the opening and the end of the root element; both runs ask the same questions, get the same
answers and leave the chooser in the same state; and the derivation that they stand for, known by
those answers, expands the payload's rule once. -/
theorem generate_two_payloads (p q : String) :
    grammar (.fuzzing p) = .ok (fuzzingGrammar p) ∧
    grammar (.fuzzing q) = .ok (fuzzingGrammar q) ∧
    ∀ (limits : Limits) {σ : Type} (c : Chooser σ) (s s₁ s₂ : σ) (a b : String),
      let left : Expander := ⟨fuzzingGrammar p, limits⟩
      let right : Expander := ⟨fuzzingGrammar q, limits⟩
      left.generate c startSymbol s = (.ok a, s₁) →
      right.generate c startSymbol s = (.ok b, s₂) →
      (∃ u v : String, a = u ++ p ++ " " ++ v ∧ b = u ++ q ++ " " ++ v ∧
        "<html".toList <+: u.toList ∧ "</html> ".toList <:+ v.toList) ∧
      ∃ draws : Array Draw,
        left.generate c.recording startSymbol (s, #[]) = (.ok a, s₁, draws) ∧
        right.generate c.recording startSymbol (s, #[]) = (.ok b, s₁, draws) ∧ s₁ = s₂ ∧
        (∃ tree : (fuzzingGrammar p).Tree startSymbol, a = spell tree.leaves ∧
          tree.draws = draws.toList.map Draw.clamped ∧ tree.count payloadRule = 1) ∧
        ∃ tree : (fuzzingGrammar q).Tree startSymbol, b = spell tree.leaves ∧
          tree.draws = draws.toList.map Draw.clamped ∧ tree.count payloadRule = 1 := by
  refine ⟨grammar_fuzzing p, grammar_fuzzing q, ?_⟩
  intro limits σ c s s₁ s₂ a b left right ha hb
  obtain ⟨-, draws, -, -, -, hleft, -⟩ := Expander.tree_of_generate ha
  obtain ⟨-, draws', -, -, -, hright, -⟩ := Expander.tree_of_generate hb
  have hname := hleft
  have hname' := hright
  rw [Expander.generate_eq_derive, Expander.derive] at hname hname'
  obtain ⟨hstate, x, y, hmarks, hnodes, habreast⟩ :=
    Expander.abreast_of_deriveName (twins_fuzzing p q) hname hname'
  obtain ⟨rfl, rfl⟩ := Prod.mk.inj hstate
  obtain ⟨hx, before, after, hsplit, hbefore, hafter⟩ := spell_page x
  obtain ⟨hy, -⟩ := spell_page y
  have hxleaves := x.leaves_eq_fill (alternatives_payloadRule p)
  have hyleaves := y.leaves_eq_fill (alternatives_payloadRule q)
  have hatext : a = spell x.leaves := by
    rw [habreast.left.text_eq, String.empty_append, hxleaves]
  have hbtext : b = spell y.leaves := by
    rw [habreast.right.text_eq, String.empty_append, hyleaves, hmarks]
  have hdraws : x.draws = draws.toList.map Draw.clamped := habreast.left.nodes_eq.symm
  refine ⟨⟨spell before, spell after, ?_, ?_, hbefore, ?_⟩, draws, hleft, hright, rfl,
    ⟨x, hatext, hdraws, hx⟩, y, hbtext, hnodes ▸ hdraws, hy⟩
  · rw [hatext, hxleaves, hsplit, fill_around]
  · rw [hbtext, hyleaves, ← hmarks, hsplit, fill_around]
  · exact hafter

/-! ## a page with frames -/

/-- the leaves of a page with four frames -/
def framesPage (payload : String) : List String :=
  ["<html>", "<head>", "<meta", "http-equiv=\"cache-control\"", "content=\"no-cache\">", "<base",
    "href=\"http://127.0.0.1\"", "target=\"_parent\">", "</head>", payload, "<frameset",
    "onload=\"domFuzz();\"", "cols=\"25%,*,25%\"", "rows=\"25%,*,25%\">"] ++
    (frameLeaves ++ frameLeaves ++ frameLeaves ++ frameLeaves) ++ ["</frameset>", "</html>"]

/-- The tables have all rows but that of the payload. -/
theorem under_fuzzing (payload : String) {name : String} (hne : payloadRule ≠ name) :
    under (declarations (.fuzzing payload)) name = under (declared frameRules) name := by
  have hother : [Declaration.literal payloadRule payload].filter (·.name == name) = [] := by
    simpa [Declaration.name] using hne
  show List.flatMap _ (List.filter _ (declared frameRules ++ [.literal payloadRule payload])) = _
  rw [List.filter_append, hother, List.append_nil]
  rfl

/-- what the head begins with -/
def uncachedHead : List String :=
  ["<head>", "<meta", "http-equiv=\"cache-control\"", "content=\"no-cache\">"]

/-- the texts before the frames of a set -/
def callingSet : List String :=
  ["<frameset", "onload=\"domFuzz();\"", "cols=\"25%,*,25%\"", "rows=\"25%,*,25%\">"]

set_option maxRecDepth 10000 in
theorem framed_fuzzing (payload : String) :
    Framed (under (declarations (.fuzzing payload))) uncachedHead
      (payloadRule :: (callingSet ++ List.replicate 4 "frameset_content" ++ ["</frameset>"])) := by
  constructor <;> rw [under_fuzzing payload (by decide)] <;> decide +kernel

theorem grows_framesPage (payload : String) :
    Grows (fuzzingGrammar payload) startSymbol [0, 0, 1, 0, 0, 0, 0, 0, 0, 0, 0, 0]
      (framesPage payload) 6 := by
  have hg := grammar_fuzzing payload
  have hrows := framed_fuzzing payload
  have hnames : namesOf (declarations (.fuzzing payload)) = ruleNames := by
    rw [← names_ofDeclarations, names_fuzzing]
  have hletters : ∀ name ∈ namesOf (declarations (.fuzzing payload)), ∀ c ∈ name.toList,
      isNameChar c = true := fun _ hname => letters_of_mem (hnames ▸ hname)
  have hframe := grows_frame hg hrows hletters
  have hgap : Grows (fuzzingGrammar payload) payloadRule [0] [payload] 0 :=
    ⟨.literal payload _ (alternatives_payloadRule payload) ⟨0, Nat.one_pos⟩ rfl, rfl, rfl, rfl⟩
  have hend : ∀ t ∈ ["</frameset>"], t.toList.all isNameChar = false := by decide
  have hcalling : ∀ t ∈ callingSet, t.toList.all isNameChar = false := by decide
  have hhead : ∀ t ∈ uncachedHead, t.toList.all isNameChar = false := by decide
  have hpayload : payloadRule ∈ namesOf (declarations (.fuzzing payload)) :=
    hnames ▸ mem_ruleNames_of_spine (by decide)
  have known := mem_namesOf_of_under hrows.frame
  have hset := ((((((rowGrows_texts fun t ht => classify_of_letters hletters (hend t ht)).name known
    hframe).name known hframe).name known hframe).name known hframe).texts fun t ht =>
      classify_of_letters hletters (hcalling t ht)).name hpayload hgap
  exact grows_page hg hrows hletters hhead hset

theorem generate_framesPage (payload : String)
    (hsize : (spell (framesPage payload)).utf8ByteSize ≤ 8 * 1024 * 1024) :
    (Expander.mk (fuzzingGrammar payload) {}).generate (.scripted 0) startSymbol
      [0, 0, 1, 0, 0, 0, 0, 0, 0, 0, 0, 0] = (.ok (spell (framesPage payload)), []) := by
  obtain ⟨page, hpicks, hleaves, hnesting⟩ := grows_framesPage payload
  have hdepth : page.nesting ≤ 512 := by omega
  have hrun := Expander.generate_of_tree (e := ⟨fuzzingGrammar payload, {}⟩) page hdepth
    (by rw [hleaves]; exact hsize)
  rwa [hpicks, hleaves] at hrun

/-- A payload with a bar, blanks and the name of its own rule, and an empty one. -/
theorem generate_two_payloads_frames :
    let left : Expander := ⟨fuzzingGrammar "a | domfuzz", {}⟩
    let right : Expander := ⟨fuzzingGrammar "", {}⟩
    let picks := [0, 0, 1, 0, 0, 0, 0, 0, 0, 0, 0, 0]
    left.generate (.scripted 0) startSymbol picks = (.ok (spell (framesPage "a | domfuzz")), []) ∧
    right.generate (.scripted 0) startSymbol picks = (.ok (spell (framesPage "")), []) ∧
    ∃ u v : String, spell (framesPage "a | domfuzz") = u ++ "a | domfuzz" ++ " " ++ v ∧
      spell (framesPage "") = u ++ "" ++ " " ++ v ∧ "<html".toList <+: u.toList ∧
      "</html> ".toList <:+ v.toList := by
  intro left right picks
  have hleft := generate_framesPage "a | domfuzz" (by decide +kernel)
  have hright := generate_framesPage "" (by decide +kernel)
  obtain ⟨-, -, htwo⟩ := generate_two_payloads "a | domfuzz" ""
  obtain ⟨htexts, -⟩ := htwo {} (.scripted 0) picks [] [] _ _ hleft hright
  exact ⟨hleft, hright, htexts⟩

end PageFuzz.Page
