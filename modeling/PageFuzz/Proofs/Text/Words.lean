import Mathlib.Data.List.TakeWhile
import Mathlib.Tactic.Common
import PageFuzz.Grammar.Notation
import PageFuzz.Proofs.Text.Pieces

/-!
# Words of a text

A blank ends one word and begins another, so the words of a text are those before any blank of it
and those after.  A word that is written with a blank after it is read back as the first word,
whatever follows.  The tokens of the rule notation are words.
-/

namespace PageFuzz

namespace Text

/-- one word and nothing else -/
def IsWord (t : String) : Prop := t.toList ≠ [] ∧ ∀ c ∈ t.toList, isBlank c = false

/-- The words before a blank, and those after it. -/
theorem words_append_cons (cs : List Char) {blank : Char} (hblank : isBlank blank = true)
    (rest : List Char) : words (cs ++ blank :: rest) = words cs ++ words rest := by
  unfold words
  rw [List.splitOnP_append_cons cs rest hblank, List.filter_append]

theorem words_cons {blank : Char} (hblank : isBlank blank = true) (cs : List Char) :
    words (blank :: cs) = words cs := words_append_cons [] hblank cs

theorem words_of_not_blank {w : List Char} (hne : w ≠ []) (hw : ∀ c ∈ w, isBlank c = false) :
    words w = [w] := by
  have hkeep : (!w.isEmpty) = true := by simpa using hne
  have hpiece : w.splitOnP isBlank = [w] := List.splitOnP_eq_singleton hw
  unfold words
  rw [hpiece, List.filter_cons, if_pos hkeep, List.filter_nil]

theorem words_append_blank {w : List Char} (hne : w ≠ []) (hw : ∀ c ∈ w, isBlank c = false)
    {blank : Char} (hblank : isBlank blank = true) (rest : List Char) :
    words (w ++ blank :: rest) = w :: words rest := by
  rw [words_append_cons w hblank, words_of_not_blank hne hw, List.singleton_append]

/-- The words together are the text without its blanks. -/
theorem flatten_words (cs : List Char) : (words cs).flatten = cs.filter fun c => !isBlank c := by
  rw [words, List.flatten_filter_not_isEmpty, flatten_splitOnP]

/-! ## gaps -/

/-- blanks and nothing else -/
def Gap (cs : List Char) : Prop := ∀ c ∈ cs, isBlank c = true

theorem Gap.cons {blank : Char} (hblank : isBlank blank = true) {cs : List Char} (h : Gap cs) :
    Gap (blank :: cs) := List.forall_mem_cons.mpr ⟨hblank, h⟩

theorem words_gap_append {gap : List Char} (h : Gap gap) (cs : List Char) :
    words (gap ++ cs) = words cs := by
  induction gap with
  | nil => rfl
  | cons blank gap ih =>
    obtain ⟨hblank, hgap⟩ := List.forall_mem_cons.mp h
    rw [List.cons_append, words_cons hblank, ih hgap]

theorem words_gap {gap : List Char} (h : Gap gap) : words gap = [] := by
  have hwords := words_gap_append h []
  rwa [List.append_nil] at hwords

theorem words_append_gap (cs : List Char) {gap : List Char} (h : Gap gap) :
    words (cs ++ gap) = words cs := by
  cases gap with
  | nil => rw [List.append_nil]
  | cons blank gap =>
    obtain ⟨hblank, hgap⟩ := List.forall_mem_cons.mp h
    rw [words_append_cons cs hblank, words_gap hgap, List.append_nil]

/-- A text is blank, or it begins with a gap and a word that either ends it or has a blank behind
it. -/
theorem gap_or_word (cs : List Char) :
    Gap cs ∨ ∃ gap w, Gap gap ∧ w ≠ [] ∧ (∀ c ∈ w, isBlank c = false) ∧
      (cs = gap ++ w ∨ ∃ blank rest, isBlank blank = true ∧ cs = gap ++ w ++ blank :: rest) := by
  induction cs with
  | nil => exact .inl (List.forall_mem_nil _)
  | cons c cs ih =>
    cases hc : isBlank c with
    | true =>
      rcases ih with hgap | ⟨gap, w, hgap, hne, hw, rfl | ⟨blank, rest, hblank, rfl⟩⟩
      · exact .inl (hgap.cons hc)
      · exact .inr ⟨c :: gap, w, hgap.cons hc, hne, hw, .inl rfl⟩
      · exact .inr ⟨c :: gap, w, hgap.cons hc, hne, hw, .inr ⟨blank, rest, hblank, rfl⟩⟩
    | false =>
      -- the word goes on for as long as there is no blank
      have hfirst : ∀ a ∈ cs.takeWhile (!isBlank ·), isBlank a = false := by
        intro a ha
        simpa using List.mem_takeWhile_imp ha
      have hsplit : cs.takeWhile (!isBlank ·) ++ cs.dropWhile (!isBlank ·) = cs :=
        List.takeWhile_append_dropWhile
      refine .inr ⟨[], c :: cs.takeWhile (!isBlank ·), List.forall_mem_nil _, List.cons_ne_nil _ _,
        List.forall_mem_cons.mpr ⟨hc, hfirst⟩, ?_⟩
      cases hrest : cs.dropWhile (!isBlank ·) with
      | nil =>
        rw [hrest, List.append_nil] at hsplit
        exact .inl (by rw [hsplit, List.nil_append])
      | cons blank rest =>
        have hblank : isBlank blank = true := by
          have hhead := List.head_dropWhile_not (!isBlank ·) (l := cs) (by simp [hrest])
          simpa [hrest] using hhead
        rw [hrest] at hsplit
        exact .inr ⟨blank, rest, hblank, by rw [List.nil_append, List.cons_append, hsplit]⟩

theorem isWord_of_mem_words {cs w : List Char} (h : w ∈ words cs) : IsWord (String.ofList w) := by
  have hpiece : w ∈ cs.splitOnP isBlank := (List.mem_filter.mp h).1
  unfold IsWord
  rw [String.toList_ofList]
  exact ⟨ne_nil_of_mem_words h, fun c hc => of_mem_piece hpiece hc⟩

end Text

theorem Notation.isWord_of_mem_tokens {spec t : String} {ts : List String}
    (hts : ts ∈ tokens spec) (ht : t ∈ ts) : Text.IsWord t := by
  obtain ⟨piece, -, rfl⟩ := List.mem_map.mp hts
  obtain ⟨w, hw, rfl⟩ := List.mem_map.mp ht
  exact Text.isWord_of_mem_words hw

end PageFuzz
