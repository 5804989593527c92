import Mathlib
import PageFuzz.Proofs.Grammar.Build

/-!
# How a rule may be laid out

The rows of tokens that a rule was written from are read back from it, however it was laid out:
with any blanks around its tokens and its bars, as long as there is one between two tokens.

* `Row`, `Layout`           the texts that a row of tokens can be written as, and those of a rule;
* `row_words`               every text is a row of its own words;
* `tokens_eq_iff_layout`    the tokens of a text are the rows that it is a layout of;
* `declare_spec_faithful`   what declaring a text in the notation adds to a draft.
-/

namespace PageFuzz

open Text

namespace Notation

/-- a word that has no bar in it -/
def IsToken (t : String) : Prop := IsWord t ∧ bar ∉ t.toList

/-- a row of tokens, with blanks around them and at least one between two of them -/
inductive Row : List String → List Char → Prop
  | gap {cs : List Char} (h : Gap cs) : Row [] cs
  | single {before after : List Char} (t : String) (hbefore : Gap before) (hafter : Gap after) :
      Row [t] (before ++ t.toList ++ after)
  | cons {before between cs : List Char} {u : String} {ts : List String} (t : String)
      (hbefore : Gap before) (hbetween : Gap between) (hne : between ≠ [])
      (rest : Row (u :: ts) cs) : Row (t :: u :: ts) (before ++ t.toList ++ between ++ cs)

/-- rows of tokens with bars between them -/
inductive Layout : List (List String) → List Char → Prop
  | last {ts : List String} {cs : List Char} (row : Row ts cs) : Layout [ts] cs
  | more {ts : List String} {rows : List (List String)} {cs rest : List Char} (row : Row ts cs)
      (more : Layout rows rest) : Layout (ts :: rows) (cs ++ bar :: rest)

/-! ## from the tokens to a text and back -/

theorem not_isBlank_bar : isBlank bar = false := rfl

theorem bar_not_mem_gap {cs : List Char} (h : Gap cs) : bar ∉ cs := by
  intro hmem
  have hblank := h bar hmem
  rw [not_isBlank_bar] at hblank
  cases hblank

namespace Row

/-- blanks in front of a row belong to it -/
theorem gap_append {ts : List String} {cs gap : List Char} (hgap : Gap gap) (h : Row ts cs) :
    Row ts (gap ++ cs) := by
  have hjoin : ∀ {before : List Char}, Gap before → Gap (gap ++ before) :=
    fun hbefore => List.forall_mem_append.mpr ⟨hgap, hbefore⟩
  cases h with
  | gap h => exact .gap (hjoin h)
  | single t hbefore hafter =>
    rw [← List.append_assoc, ← List.append_assoc]
    exact .single t (hjoin hbefore) hafter
  | cons t hbefore hbetween hne rest =>
    rw [← List.append_assoc, ← List.append_assoc, ← List.append_assoc]
    exact .cons t (hjoin hbefore) hbetween hne rest

/-- a word in front of a row, with a blank between them, makes a longer row -/
theorem word_append {ts : List String} {cs : List Char} (t : String) {blank : Char}
    (hblank : isBlank blank = true) (h : Row ts cs) : Row (t :: ts) (t.toList ++ blank :: cs) := by
  have hgap : Gap [blank] := Gap.cons hblank (List.forall_mem_nil _)
  cases ts with
  | nil =>
    cases h with
    | gap h => exact @Row.single [] _ t (List.forall_mem_nil _) (h.cons hblank)
  | cons u ts =>
    have hrow := @Row.cons [] _ _ _ _ t (List.forall_mem_nil _) hgap (List.cons_ne_nil _ _) h
    rwa [List.nil_append, List.append_assoc, List.singleton_append] at hrow

theorem bar_not_mem {ts : List String} {cs : List Char} (h : Row ts cs)
    (hts : ∀ t ∈ ts, IsToken t) : bar ∉ cs := by
  induction h with
  | gap h => exact bar_not_mem_gap h
  | single t hbefore hafter =>
    have ht := (hts t List.mem_cons_self).2
    simp [ht, bar_not_mem_gap hbefore, bar_not_mem_gap hafter]
  | cons t hbefore hbetween hne rest ih =>
    have ht := (hts t List.mem_cons_self).2
    have hrest := ih fun u hu => hts u (List.mem_cons_of_mem _ hu)
    simp [ht, hrest, bar_not_mem_gap hbefore, bar_not_mem_gap hbetween]

/-- The words of a row are its tokens. -/
theorem words_eq {ts : List String} {cs : List Char} (h : Row ts cs)
    (hts : ∀ t ∈ ts, IsToken t) : words cs = ts.map String.toList := by
  induction h with
  | gap h => exact words_gap h
  | single t hbefore hafter =>
    obtain ⟨hne, hword⟩ := (hts t List.mem_cons_self).1
    rw [words_append_gap _ hafter, words_gap_append hbefore, words_of_not_blank hne hword]
    rfl
  | @cons before between cs u ts t hbefore hbetween hne rest ih =>
    obtain ⟨hne', hword⟩ := (hts t List.mem_cons_self).1
    have hrest := ih fun v hv => hts v (List.mem_cons_of_mem _ hv)
    obtain ⟨blank, gap, rfl⟩ := List.exists_cons_of_ne_nil hne
    obtain ⟨hblank, hgap⟩ := List.forall_mem_cons.mp hbetween
    have hshape : before ++ t.toList ++ (blank :: gap) ++ cs =
        before ++ (t.toList ++ blank :: (gap ++ cs)) := by simp
    rw [hshape, words_gap_append hbefore, words_append_blank hne' hword hblank,
      words_gap_append hgap, hrest]
    rfl

end Row

/-- Every text is a row of its own words. -/
theorem row_words (cs : List Char) : Row ((words cs).map String.ofList) cs := by
  induction hn : cs.length using Nat.strongRecOn generalizing cs with
  | ind n ih =>
    rcases gap_or_word cs with hgap | ⟨gap, w, hgap, hne, hw, rfl | ⟨blank, rest, hblank, rfl⟩⟩
    · rw [words_gap hgap]
      exact .gap hgap
    · have hrow := Row.single (String.ofList w) hgap (List.forall_mem_nil _)
      rw [String.toList_ofList, List.append_nil] at hrow
      rwa [words_gap_append hgap, words_of_not_blank hne hw]
    · have hshorter : rest.length < n := by
        simp only [List.length_append, List.length_cons] at hn
        omega
      have hrow := ((ih rest.length hshorter rest rfl).word_append (String.ofList w)
        hblank).gap_append hgap
      rw [String.toList_ofList] at hrow
      rwa [List.append_assoc, words_gap_append hgap, words_append_blank hne hw hblank]

/-- the pieces before a bar, and those after it -/
theorem splitOnP_append_bar (cs rest : List Char) :
    (cs ++ bar :: rest).splitOnP (· == bar) =
      cs.splitOnP (· == bar) ++ rest.splitOnP (· == bar) :=
  List.splitOnP_append_cons cs rest (beq_self_eq_true bar)

theorem splitOnP_of_bar_not_mem {cs : List Char} (h : bar ∉ cs) :
    cs.splitOnP (· == bar) = [cs] := by
  refine List.splitOnP_eq_singleton fun c hc => beq_false_of_ne ?_
  rintro rfl
  exact h hc

/-- A text is a layout of what it is read as. -/
theorem layout_splitOnP (cs : List Char) :
    Layout ((cs.splitOnP (· == bar)).map fun piece => (words piece).map String.ofList) cs := by
  induction hn : cs.length using Nat.strongRecOn generalizing cs with
  | ind n ih =>
    by_cases hbar : bar ∈ cs
    · obtain ⟨piece, rest, rfl, hpiece⟩ := List.eq_append_cons_of_mem hbar
      have hshorter : rest.length < n := by
        simp only [List.length_append, List.length_cons] at hn
        omega
      rw [splitOnP_append_bar, splitOnP_of_bar_not_mem hpiece]
      exact .more (row_words piece) (ih rest.length hshorter rest rfl)
    · rw [splitOnP_of_bar_not_mem hbar]
      exact .last (row_words cs)

/-- What a layout is read as. -/
theorem Layout.splitOnP_eq {rows : List (List String)} {cs : List Char} (h : Layout rows cs)
    (hrows : ∀ ts ∈ rows, ∀ t ∈ ts, IsToken t) :
    ((cs.splitOnP (· == bar)).map fun piece => (words piece).map String.ofList) = rows := by
  have hback : ∀ ts : List String, (ts.map String.toList).map String.ofList = ts := by
    intro ts
    simp [Function.comp_def]
  induction h with
  | last row =>
    have hts := hrows _ List.mem_cons_self
    rw [splitOnP_of_bar_not_mem (row.bar_not_mem hts), List.map_singleton, row.words_eq hts, hback]
  | @more ts rows cs rest row more ih =>
    obtain ⟨hts, hmore⟩ := List.forall_mem_cons.mp hrows
    rw [splitOnP_append_bar, splitOnP_of_bar_not_mem (row.bar_not_mem hts),
      List.singleton_append, List.map_cons, row.words_eq hts, hback, ih hmore]

theorem isToken_of_mem_tokens {spec t : String} {ts : List String} (hts : ts ∈ tokens spec)
    (ht : t ∈ ts) : IsToken t := by
  refine ⟨isWord_of_mem_tokens hts ht, ?_⟩
  obtain ⟨piece, hpiece, rfl⟩ := List.mem_map.mp hts
  obtain ⟨w, hw, rfl⟩ := List.mem_map.mp ht
  rw [String.toList_ofList]
  intro hbar
  -- a bar in a word is a bar in its piece
  have hmem : bar ∈ piece := by
    have hflat : bar ∈ (words piece).flatten := List.mem_flatten.mpr ⟨w, hw, hbar⟩
    rw [flatten_words] at hflat
    exact (List.mem_filter.mp hflat).1
  have hcut := of_mem_piece hpiece hmem
  rw [beq_self_eq_true] at hcut
  cases hcut

/-- The tokens of a text are the rows that it is a layout of. -/
theorem tokens_eq_iff_layout {spec : String} {rows : List (List String)} :
    tokens spec = rows ↔ (∀ ts ∈ rows, ∀ t ∈ ts, IsToken t) ∧ Layout rows spec.toList := by
  constructor
  · rintro rfl
    exact ⟨fun ts hts t ht => isToken_of_mem_tokens hts ht, layout_splitOnP spec.toList⟩
  · rintro ⟨hrows, hlayout⟩
    exact hlayout.splitOnP_eq hrows

/-! ## writing -/

/-- the tokens of a row with one space after each -/
theorem row_spaced (ts : List String) : ∃ cs, Row ts cs := by
  induction ts with
  | nil => exact ⟨[], .gap (List.forall_mem_nil _)⟩
  | cons t ts ih =>
    obtain ⟨cs, hrow⟩ := ih
    exact ⟨t.toList ++ ' ' :: cs, hrow.word_append t rfl⟩

theorem exists_layout {rows : List (List String)} (h : rows ≠ []) : ∃ cs, Layout rows cs := by
  induction rows with
  | nil => exact absurd rfl h
  | cons ts rows ih =>
    obtain ⟨cs, hrow⟩ := row_spaced ts
    cases rows with
    | nil => exact ⟨cs, .last hrow⟩
    | cons us rows =>
      obtain ⟨rest, hrest⟩ := ih (List.cons_ne_nil _ _)
      exact ⟨cs ++ bar :: rest, .more hrow hrest⟩

/-! ## what is read -/

/-- A bar ends one text in the notation and begins another. -/
theorem tokens_append_bar (a b : String) : tokens (a ++ "|" ++ b) = tokens a ++ tokens b := by
  have hchars : (a ++ "|" ++ b).toList = a.toList ++ bar :: b.toList := by
    rw [String.toList_append, String.toList_append, List.append_assoc]
    rfl
  unfold tokens
  rw [hchars, splitOnP_append_bar, List.map_append]

theorem length_tokens (spec : String) : (tokens spec).length = spec.toList.count bar + 1 := by
  rw [tokens, List.length_map, length_splitOnP]
  rfl

/-- the words of all pieces together -/
theorem flatten_rows (pieces : List (List Char)) :
    (pieces.map fun piece => (words piece).map String.ofList).flatten.flatMap String.toList =
      pieces.flatten.filter fun c => !isBlank c := by
  induction pieces with
  | nil => rfl
  | cons piece pieces ih =>
    have hfirst : ((words piece).map String.ofList).flatMap String.toList =
        (words piece).flatten := by
      simp [List.flatMap_def, Function.comp_def]
    rw [List.map_cons, List.flatten_cons, List.flatMap_append, ih, hfirst, flatten_words,
      List.flatten_cons, List.filter_append]

/-- The tokens together are the text without its bars and blanks. -/
theorem join_tokens (spec : String) :
    (String.join (tokens spec).flatten).toList =
      spec.toList.filter fun c => c != bar && !isBlank c := by
  rw [String.toList_join, tokens, flatten_rows, flatten_splitOnP, List.filter_filter]
  apply List.filter_congr
  intro c _
  exact Bool.and_comm _ _

end Notation

namespace Draft

theorem declare_spec_append_bar (d : Draft) (name a b : String) :
    d.declare (.spec name (a ++ "|" ++ b)) =
      (d.declare (.spec name a)).declare (.spec name b) := by
  have hpending : (Declaration.spec name (a ++ "|" ++ b)).pending =
      (Declaration.spec name a).pending ++ (Declaration.spec name b).pending := by
    unfold Declaration.pending
    dsimp only
    rw [Notation.tokens_append_bar, List.map_append]
  unfold declare
  rw [hpending]
  show _ = Draft.mk (extendRules name _ (extendRules name _ d.rules))
  rw [extendRules_extendRules]
  rfl

/-- **The notation is read without loss or invention.**  A text with a bar in it declares what its
two sides declare one after the other.  Declaring a text adds a row of tokens to its name for each
piece between bars, and nothing to any other name: one row more than there are bars, tokens that
are words without a bar, and together the whole text but for its bars and blanks.  The rows are
exactly those that the text is a layout of, and any rows of tokens can be laid out, rows without a
token among them. -/
theorem declare_spec_faithful (d : Draft) (name : String) :
    (∀ a b, d.declare (.spec name (a ++ "|" ++ b)) =
      (d.declare (.spec name a)).declare (.spec name b)) ∧
    (∀ text, ∃ rows : List (List String),
      (∀ n, ((d.declare (.spec name text)).rules.lookup n).getD [] =
        (d.rules.lookup n).getD [] ++ if n = name then rows.map .tokens else []) ∧
      rows.length = text.toList.count '|' + 1 ∧
      (∀ ts ∈ rows, ∀ t ∈ ts, t ≠ "" ∧ ∀ c ∈ t.toList, c ≠ '|' ∧ isBlank c = false) ∧
      (String.join rows.flatten).toList = text.toList.filter (fun c => c != '|' && !isBlank c) ∧
      ∀ rows' : List (List String), rows = rows' ↔
        (∀ ts ∈ rows', ∀ t ∈ ts, Notation.IsToken t) ∧ Notation.Layout rows' text.toList) ∧
    ∀ rows : List (List String), rows ≠ [] → ∃ text : String, Notation.Layout rows text.toList := by
  refine ⟨declare_spec_append_bar d name, fun text => ?_, fun rows hne => ?_⟩
  · refine ⟨Notation.tokens text, fun n => lookup_extendRules name _ d.rules n,
      Notation.length_tokens text, fun ts hts t ht => ?_, Notation.join_tokens text,
      fun rows' => Notation.tokens_eq_iff_layout⟩
    obtain ⟨⟨hne, hword⟩, hbar⟩ := Notation.isToken_of_mem_tokens hts ht
    refine ⟨?_, fun c hc => ⟨?_, hword c hc⟩⟩
    · rintro rfl
      exact hne rfl
    · rintro rfl
      exact hbar hc
  · obtain ⟨cs, hlayout⟩ := Notation.exists_layout hne
    exact ⟨String.ofList cs, by rwa [String.toList_ofList]⟩

/-- Blanks of several kinds, two tokens in a row and none in the next, and a look-alike of a blank
that belongs to its token. -/
theorem declare_spec_faithful_of_blanks :
    let rows := [["x", "y"], [], ["z\u200b"]]
    (∀ ts ∈ rows, ∀ t ∈ ts, Notation.IsToken t) ∧
      Notation.Layout rows "\u3000x\u00a0y|\u2028|z\u200b".toList ∧
      ((empty.declare (.spec "s" "\u3000x\u00a0y|\u2028|z\u200b")).rules.lookup "s").getD [] =
        rows.map .tokens := by
  intro rows
  have hrows : ∀ ts ∈ rows, ∀ t ∈ ts, Notation.IsToken t := by
    simp [rows, Notation.IsToken, IsWord, isBlank, Notation.bar]
  have hnone : Gap [] := List.forall_mem_nil _
  have hlast : Notation.Row ["y"] ['y'] := @Notation.Row.single [] [] "y" hnone hnone
  have hfirst : Notation.Row ["x", "y"] ['\u3000', 'x', '\u00a0', 'y'] :=
    @Notation.Row.cons ['\u3000'] ['\u00a0'] _ _ _ "x" (hnone.cons rfl)
      (hnone.cons rfl) (List.cons_ne_nil _ _) hlast
  have hsecond : Notation.Row [] ['\u2028'] := .gap (hnone.cons rfl)
  have hthird : Notation.Row ["z\u200b"] ['z', '\u200b'] :=
    @Notation.Row.single [] [] "z\u200b" hnone hnone
  have htext : "\u3000x\u00a0y|\u2028|z\u200b".toList = ['\u3000', 'x', '\u00a0', 'y'] ++
      Notation.bar :: (['\u2028'] ++ Notation.bar :: ['z', '\u200b']) := by
    simp [Notation.bar]
  have hlayout : Notation.Layout rows "\u3000x\u00a0y|\u2028|z\u200b".toList := by
    rw [htext]
    exact .more hfirst (.more hsecond (.last hthird))
  obtain ⟨-, hread, -⟩ := declare_spec_faithful empty "s"
  obtain ⟨read, hadded, -, -, -, hlayouts⟩ := hread "\u3000x\u00a0y|\u2028|z\u200b"
  refine ⟨hrows, hlayout, ?_⟩
  rw [hadded "s", if_pos rfl, (hlayouts rows).mpr ⟨hrows, hlayout⟩]
  exact List.nil_append _

end Draft

end PageFuzz
