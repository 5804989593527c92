import PageFuzz.Proofs.Text.Pieces
import PageFuzz.Replay.Log

/-!
# Reading a log back

A log is the lines of the files that were served.  A path that is shown on one line is read back
as it is shown.  Of any other path that has a slash, the first thing that is read back is not the
path; so a log with such a path is refused at the file it stands for.

* `ofServed`             the log of some files;
* `Path.OnOneLine`       the path is shown without a line feed, and does not end in a return;
* `entries_ofServed`     paths on one line are read back;
* `served_eq_ok_iff`     which logs are accepted;
* `served_ofServed`      and a replay goes on after them;
* `served_of_broken`     any other path is a mismatch.
-/

namespace PageFuzz

/-- The path as it is shown is one line, and has no carriage return that a reader drops. -/
def Path.OnOneLine (p : Path) : Prop :=
  '\n' ∉ p.display.toList ∧ p.display.toList.getLast? ≠ some '\r'

instance (p : Path) : Decidable p.OnOneLine := inferInstanceAs (Decidable (_ ∧ _))

namespace Text

/-! ## lines of a text -/

theorem linesOfPieces_append (ls : List (List Char)) {ms : List (List Char)} (h : ms ≠ []) :
    linesOfPieces (ls ++ ms) = ls.map dropReturn ++ linesOfPieces ms := by
  induction ls with
  | nil => rfl
  | cons l ls ih =>
    obtain ⟨m, more, hm⟩ : ∃ m more, ls ++ ms = m :: more :=
      List.exists_cons_of_ne_nil (List.append_ne_nil_of_right_ne_nil ls h)
    rw [List.map_cons, List.cons_append, List.cons_append, ← ih, hm]
    rfl

/-- What stands before a line feed ends there, whatever follows. -/
theorem lines_append (l rest : List Char) :
    lines (l ++ '\n' :: rest) = (l.splitOnP (· == '\n')).map dropReturn ++ lines rest := by
  unfold lines
  rw [List.splitOnP_append_cons l rest (by simp),
    linesOfPieces_append _ (List.splitOnP_ne_nil _ rest)]

theorem dropReturn_of_ne {l : List Char} (h : l.getLast? ≠ some '\r') : dropReturn l = l := by
  rw [dropReturn, if_neg h]

theorem mem_dropReturn {l : List Char} {c : Char} (hc : c ∈ l) (hreturn : c ≠ '\r') :
    c ∈ dropReturn l := by
  unfold dropReturn
  split
  · next hlast =>
    obtain ⟨front, rfl⟩ := List.getLast?_eq_some_iff.mp hlast
    rw [List.dropLast_concat]
    rcases List.mem_append.mp hc with hfront | hend
    · exact hfront
    · exact absurd (List.mem_singleton.mp hend) hreturn
  · exact hc

theorem mem_of_mem_dropReturn {l : List Char} {c : Char} (hc : c ∈ dropReturn l) : c ∈ l := by
  unfold dropReturn at hc
  split at hc
  · exact (List.dropLast_sublist l).subset hc
  · exact hc

end Text

namespace Replay.Log

open Text

/-- the log of files that were served -/
def ofServed (ps : List Path) : String := String.join (ps.map line)

theorem ofServed_nil : ofServed [] = "" := rfl

theorem ofServed_cons (p : Path) (ps : List Path) : ofServed (p :: ps) = line p ++ ofServed ps := by
  unfold ofServed
  rw [List.map_cons, String.join_cons]

theorem ofServed_concat (ps : List Path) (p : Path) :
    ofServed (ps ++ [p]) = ofServed ps ++ line p := by
  unfold ofServed
  rw [List.map_append, String.join_append, List.map_singleton, String.join_cons, String.join_nil,
    String.append_empty]

/-! ## entries of a line -/

/-- what is read back of one path -/
def entriesOf (p : Path) : List String :=
  (((p.display.toList.splitOnP (· == '\n')).map dropReturn).filter (!·.isEmpty)).map String.ofList

theorem entries_line (p : Path) (rest : String) :
    entries (line p ++ rest) = entriesOf p ++ entries rest := by
  have htext : (line p ++ rest).toList = p.display.toList ++ '\n' :: rest.toList := by
    unfold line
    rw [String.toList_append, String.toList_append, List.append_assoc]
    rfl
  unfold entries entriesOf
  rw [htext, lines_append, List.filter_append, List.map_append]

theorem splitOnP_newline {l : List Char} (h : '\n' ∉ l) : l.splitOnP (· == '\n') = [l] := by
  apply List.splitOnP_eq_singleton
  intro c hc
  have hne : c ≠ '\n' := fun he => h (he ▸ hc)
  simpa using hne

/-- A path on one line is read back as it is shown. -/
theorem entriesOf_of_onOneLine {p : Path} (h : p.OnOneLine) (hslash : '/' ∈ p.display.toList) :
    entriesOf p = [p.display] := by
  unfold entriesOf
  have hkeep : (!p.display.toList.isEmpty) = true := by
    simpa using List.ne_nil_of_mem hslash
  rw [splitOnP_newline h.1, List.map_singleton, dropReturn_of_ne h.2, List.filter_cons,
    if_pos hkeep, List.filter_nil, List.map_singleton, String.ofList_toList]

/-- A line that is cut off a path, or that loses its return, is not the path. -/
theorem dropReturn_ne_of_broken {p : Path} (h : ¬ p.OnOneLine) {piece : List Char}
    (hpiece : piece ∈ p.display.toList.splitOnP (· == '\n')) :
    dropReturn piece ≠ p.display.toList := by
  intro he
  by_cases hfeed : '\n' ∈ p.display.toList
  · rw [← he] at hfeed
    have hnot := of_mem_piece hpiece (mem_of_mem_dropReturn hfeed)
    simp at hnot
  · rw [splitOnP_newline hfeed, List.mem_singleton] at hpiece
    have hreturn : p.display.toList.getLast? = some '\r' := by
      by_contra hne
      exact h ⟨hfeed, hne⟩
    obtain ⟨front, hfront⟩ := List.getLast?_eq_some_iff.mp hreturn
    rw [hpiece, hfront, dropReturn_append_return] at he
    simp at he

/-- Of a path that is not on one line something else is read back first. -/
theorem entriesOf_of_broken {p : Path} (h : ¬ p.OnOneLine) (hslash : '/' ∈ p.display.toList) :
    ∃ found more, entriesOf p = found :: more ∧ found ≠ p.display := by
  obtain ⟨piece, hpiece, hin⟩ := mem_splitOnP (p := (· == '\n')) hslash (by decide)
  have hpart : '/' ∈ dropReturn piece := mem_dropReturn hin (by decide)
  have hmem : String.ofList (dropReturn piece) ∈ entriesOf p := by
    refine List.mem_map_of_mem (List.mem_filter.mpr ⟨List.mem_map_of_mem hpiece, ?_⟩)
    simpa using List.ne_nil_of_mem hpart
  obtain ⟨found, more, hentries⟩ := List.exists_cons_of_ne_nil (List.ne_nil_of_mem hmem)
  refine ⟨found, more, hentries, ?_⟩
  rintro rfl
  have hfirst : p.display ∈ entriesOf p := hentries ▸ List.mem_cons_self
  obtain ⟨l, hl, hdisplay⟩ := List.mem_map.mp hfirst
  obtain ⟨other, hother, rfl⟩ := List.mem_map.mp (List.mem_filter.mp hl).1
  refine dropReturn_ne_of_broken h hother ?_
  rw [← hdisplay, String.toList_ofList]

/-! ## a log along the files -/

theorem entries_ofServed_append {gs : List Path} (hgood : ∀ p ∈ gs, p.OnOneLine)
    (hslash : ∀ p ∈ gs, '/' ∈ p.display.toList) (ps : List Path) :
    entries (ofServed (gs ++ ps)) = gs.map Path.display ++ entries (ofServed ps) := by
  induction gs with
  | nil => rfl
  | cons g gs ih =>
    have hg : entriesOf g = [g.display] :=
      entriesOf_of_onOneLine (hgood g List.mem_cons_self) (hslash g List.mem_cons_self)
    rw [List.cons_append, ofServed_cons, entries_line, hg,
      ih (fun p hp => hgood p (List.mem_cons_of_mem _ hp))
        fun p hp => hslash p (List.mem_cons_of_mem _ hp)]
    rfl

theorem matchFrom_append (done : Nat) (gs ps : List Path) (es : List String) :
    matchFrom done (gs ++ ps) (gs.map Path.display ++ es) = matchFrom (done + gs.length) ps es := by
  induction gs generalizing done with
  | nil => rfl
  | cons g gs ih =>
    rw [List.cons_append, List.map_cons, List.cons_append, matchFrom, if_pos rfl, ih,
      List.length_cons, Nat.add_assoc, Nat.add_comm 1]

theorem eq_display_of_matchFrom {done n : Nat} {files : List Path} {es : List String}
    (h : matchFrom done files es = .ok n) :
    es = (files.take es.length).map Path.display ∧ n = done + es.length := by
  induction es generalizing done files with
  | nil =>
    cases files <;> cases h <;> exact ⟨rfl, rfl⟩
  | cons e es ih =>
    cases files with
    | nil => cases h
    | cons p ps =>
      rw [matchFrom] at h
      split at h
      · next hsame =>
        obtain ⟨hes, hn⟩ := ih h
        rw [List.length_cons, List.take_succ_cons, List.map_cons, ← hes, ← hsame, hn]
        exact ⟨rfl, by omega⟩
      · cases h

/-- A log is accepted if what is read back is the first files as they are shown. -/
theorem served_eq_ok_iff {files : List Path} {text : String} {n : Nat} :
    served files text = .ok n ↔
      n ≤ files.length ∧ entries text = (files.take n).map Path.display := by
  constructor
  · intro h
    obtain ⟨hentries, hn⟩ := eq_display_of_matchFrom h
    rw [Nat.zero_add] at hn
    exact ⟨served_le h, hn ▸ hentries⟩
  · rintro ⟨hn, hentries⟩
    have hmatch := matchFrom_append 0 (files.take n) (files.drop n) []
    rw [List.take_append_drop, List.length_take, Nat.min_eq_left hn, Nat.zero_add,
      List.append_nil] at hmatch
    rw [served, hentries, hmatch]
    cases files.drop n <;> rfl

theorem entries_ofServed {ps : List Path} (hgood : ∀ p ∈ ps, p.OnOneLine)
    (hslash : ∀ p ∈ ps, '/' ∈ p.display.toList) :
    entries (ofServed ps) = ps.map Path.display := by
  have h := entries_ofServed_append hgood hslash []
  rwa [List.append_nil, ofServed_nil, entries_empty, List.append_nil] at h

/-- A replay goes on after the files of a log whose paths are all on one line. -/
theorem served_ofServed {files : List Path} {n : Nat} (hn : n ≤ files.length)
    (hgood : ∀ p ∈ files.take n, p.OnOneLine)
    (hslash : ∀ p ∈ files.take n, '/' ∈ p.display.toList) :
    served files (ofServed (files.take n)) = .ok n :=
  served_eq_ok_iff.mpr ⟨hn, entries_ofServed hgood hslash⟩

/-- A log with a path that is not on one line is a mismatch at the first such path. -/
theorem served_of_broken {files : List Path} {n : Nat}
    (hbroken : ∃ p ∈ files.take n, ¬ p.OnOneLine)
    (hslash : ∀ p ∈ files.take n, '/' ∈ p.display.toList) :
    ∃ line expected found,
      served files (ofServed (files.take n)) = .error (.logMismatch line expected found) := by
  -- up to the first such path the log reads as the files do
  obtain ⟨gs, b, rest, htake, hgood, hb⟩ : ∃ gs b rest, files.take n = gs ++ b :: rest ∧
      (∀ p ∈ gs, p.OnOneLine) ∧ ¬ b.OnOneLine := by
    have hsome : ((files.take n).find? fun p => ¬ p.OnOneLine).isSome = true := by
      rw [List.find?_isSome]
      simpa using hbroken
    obtain ⟨b, hfind⟩ := Option.isSome_iff_exists.mp hsome
    obtain ⟨hb, gs, rest, hsplit, hgs⟩ := List.find?_eq_some_iff_append.mp hfind
    exact ⟨gs, b, rest, hsplit, by simpa using hgs, by simpa using hb⟩
  rw [htake] at hslash
  obtain ⟨found, more, hentries, hne⟩ :=
    entriesOf_of_broken hb (hslash b (List.mem_append_right gs List.mem_cons_self))
  have hfiles : files = gs ++ b :: (rest ++ files.drop n) := by
    have h := (List.take_append_drop n files).symm
    rwa [htake, List.append_assoc, List.cons_append] at h
  refine ⟨gs.length + 1, b.display, found, ?_⟩
  have hlog : entries (ofServed (files.take n)) =
      gs.map Path.display ++ found :: (more ++ entries (ofServed rest)) := by
    rw [htake, entries_ofServed_append hgood fun p hp => hslash p (List.mem_append_left _ hp),
      ofServed_cons, entries_line, hentries, List.cons_append]
  unfold served
  rw [hlog, hfiles, matchFrom_append, matchFrom, if_neg hne, Nat.zero_add]

end Replay.Log

end PageFuzz
