import Mathlib
import PageFuzz.Proofs.Files.NewFile
import PageFuzz.Proofs.Replay.OwnLog

/-!
# Which logs a replay goes on from

A replay goes on from no log, or from a log that says the first files of the corpus, and from no
other.  What a log says is put here without the cuts and filters that find it out: a text either
ends without a line feed, or has a first line and goes on behind its line feed.  Whatever makes the
opening fail, the tree and the log in it stay as they are.

* `Text.LinesOf`           a text and its lines, `Text.linesOf_iff` that these are those that are
                           read;
* `Log.Tells`              the lines of a log that are not empty;
* `Log.Differs`            the first of them that is not the path of its file;
* `Log.served_eq_error_iff`  which logs are a mismatch, and where;
* `openAt_resumed_iff`     from which logs a harness opens, and at which position;
* `openAt_exact`           all that comes of opening a harness on a log.
-/

namespace PageFuzz

namespace Text

/-- A text and its lines.  A line that has a line feed loses it, and one carriage return before it;
what stands behind the last line feed is a line as it is, unless it is empty. -/
inductive LinesOf : List Char → List (List Char) → Prop where
  | nil : LinesOf [] []
  | last {l : List Char} : l ≠ [] → '\n' ∉ l → LinesOf l [l]
  | feed {l rest : List Char} {ls : List (List Char)} :
      '\n' ∉ l → LinesOf rest ls → LinesOf (l ++ '\n' :: rest) (dropReturn l :: ls)

theorem LinesOf.lines_eq {cs : List Char} {ls : List (List Char)} (h : LinesOf cs ls) :
    lines cs = ls := by
  induction h with
  | nil => exact lines_nil
  | last hne hfeed =>
    have hkeep : ¬ List.isEmpty _ = true := List.isEmpty_iff.not.mpr hne
    rw [lines, Replay.Log.splitOnP_newline hfeed, linesOfPieces, if_neg hkeep]
  | feed hfeed _ ih =>
    rw [lines_append, Replay.Log.splitOnP_newline hfeed, ih]
    rfl

theorem exists_linesOf (cs : List Char) : ∃ ls, LinesOf cs ls := by
  induction hlength : cs.length using Nat.strong_induction_on generalizing cs with
  | h n ih =>
    by_cases hfeed : '\n' ∈ cs
    · obtain ⟨l, rest, rfl, hfirst⟩ := List.eq_append_cons_of_mem hfeed
      have hless : rest.length < n := by
        rw [← hlength, List.length_append, List.length_cons]
        omega
      obtain ⟨ls, hls⟩ := ih rest.length hless rest rfl
      exact ⟨dropReturn l :: ls, .feed hfirst hls⟩
    · by_cases hnil : cs = []
      · exact ⟨[], hnil ▸ .nil⟩
      · exact ⟨[cs], .last hnil hfeed⟩

/-- Every text has lines, and those are the lines that are read. -/
theorem linesOf_iff {cs : List Char} {ls : List (List Char)} : LinesOf cs ls ↔ lines cs = ls := by
  refine ⟨LinesOf.lines_eq, fun h => ?_⟩
  obtain ⟨ls', hls'⟩ := exists_linesOf cs
  rw [← h, hls'.lines_eq]
  exact hls'

end Text

namespace Replay

open Text

namespace Log

/-- what a log says: its lines that are not empty -/
def Tells (text : String) (es : List String) : Prop :=
  ∃ ls, LinesOf text.toList ls ∧ es = (ls.filter fun l => l ≠ []).map String.ofList

theorem tells_iff {text : String} {es : List String} : Tells text es ↔ entries text = es := by
  have hfilter : ∀ ls : List (List Char), (ls.filter fun l => l ≠ []) = ls.filter (!·.isEmpty) := by
    intro ls
    refine List.filter_congr fun l _ => ?_
    cases l <;> rfl
  constructor
  · rintro ⟨ls, hls, rfl⟩
    rw [hfilter, entries, hls.lines_eq]
  · rintro rfl
    refine ⟨lines text.toList, linesOf_iff.mpr rfl, ?_⟩
    rw [hfilter, entries]

/-- At place `i` a log says `found`, which is not the file there or stands behind all files; before
that it says the files. -/
structure Differs (files : List Path) (es : List String) (i : Nat) (found : String) : Prop where
  before : es.take i = (files.take i).map Path.display
  tells : es[i]? = some found
  differs : files[i]?.map Path.display ≠ some found

/-- what stands in a log for the file with a number, and nothing behind all files -/
def expectedAt (files : List Path) (i : Nat) : String := (files[i]?.map Path.display).getD ""

theorem differs_of_matchFrom {files : List Path} {es : List String} {done : Nat} {e : ReplayError}
    (h : matchFrom done files es = .error e) : ∃ i found, Differs files es i found ∧
      e = .logMismatch (done + i + 1) (expectedAt files i) found := by
  induction es generalizing done files with
  | nil => cases files <;> cases h
  | cons found es ih =>
    cases files with
    | nil =>
      cases h
      exact ⟨0, found, ⟨rfl, rfl, nofun⟩, rfl⟩
    | cons p ps =>
      rw [matchFrom] at h
      split at h
      · next hsame =>
        obtain ⟨i, other, hdiffers, rfl⟩ := ih h
        refine ⟨i + 1, other, ⟨?_, hdiffers.tells, hdiffers.differs⟩, ?_⟩
        · rw [List.take_succ_cons, List.take_succ_cons, List.map_cons, hdiffers.before, hsame]
        · rw [Nat.add_right_comm done 1 i]
          rfl
      · next hother =>
        cases h
        refine ⟨0, found, ⟨rfl, rfl, fun he => hother ?_⟩, rfl⟩
        exact (Option.some.inj he).symm

theorem matchFrom_of_differs {files : List Path} {es : List String} {i : Nat} {found : String}
    (h : Differs files es i found) (done : Nat) : matchFrom done files es =
      .error (.logMismatch (done + i + 1) (expectedAt files i) found) := by
  obtain ⟨hi, hfound⟩ := List.getElem?_eq_some_iff.mp h.tells
  have hlength : (files.take i).length = i := by
    rw [← List.length_map (f := Path.display), ← h.before, List.length_take]
    omega
  have hes : es = (files.take i).map Path.display ++ found :: es.drop (i + 1) := by
    rw [← h.before, ← hfound, List.getElem_cons_drop, List.take_append_drop]
  have hsplit := matchFrom_append done (files.take i) (files.drop i) (found :: es.drop (i + 1))
  rw [List.take_append_drop, ← hes, hlength] at hsplit
  have hhead : files[i]? = (files.drop i).head? := List.head?_drop.symm
  have hdiffers := h.differs
  rw [hsplit, expectedAt]
  rw [hhead] at hdiffers ⊢
  cases hrest : files.drop i with
  | nil => rfl
  | cons p ps =>
    rw [hrest] at hdiffers
    have hother : found ≠ p.display := fun he => hdiffers (congrArg some he.symm)
    rw [matchFrom, if_neg hother]
    rfl

/-- A log is a mismatch at its first line that is not the path of its file. -/
theorem served_eq_error_iff {files : List Path} {text : String} {e : ReplayError} :
    served files text = .error e ↔ ∃ i found, Differs files (entries text) i found ∧
      e = .logMismatch (i + 1) (expectedAt files i) found := by
  unfold served
  constructor
  · intro h
    obtain ⟨i, found, hdiffers, he⟩ := differs_of_matchFrom h
    rw [Nat.zero_add] at he
    exact ⟨i, found, hdiffers, he⟩
  · rintro ⟨i, found, hdiffers, rfl⟩
    rw [matchFrom_of_differs hdiffers, Nat.zero_add]

end Log

/-! ## opening on a log -/

section
variable {dir logPath : Path} {t : FileTree} {base : List Name} {name : Name}
  {found : Option (Nat × ByteArray)}

/-- The log can be opened, wherever it is or may be made. -/
theorem exists_openFile (hspot : t.fileSpot logPath = .ok (base, name, found)) :
    ∃ mark t', t.openFile logPath = .ok (mark, t') := by
  cases found with
  | none =>
    obtain ⟨t', hopen, -⟩ := FileTree.newFile_openFile hspot
    exact ⟨t.nextMark, t', hopen⟩
  | some file => exact ⟨file.1, t, openFile_of_fileSpot hspot⟩

theorem openAt_of_noDir (hdir : t.isDir dir = false) (resume : Bool) :
    Harness.openAt dir logPath resume t = (.error (.configuration (.missingDirectory dir)), t) := by
  rw [Harness.openAt, hdir, if_pos (by decide)]

/-- **From which logs a harness opens.**  It opens at the start where no log is, and behind the
first files where a text says just these. -/
theorem openAt_resumed_iff (hdir : t.isDir dir = true)
    (hspot : t.fileSpot logPath = .ok (base, name, found)) (p : Nat) :
    (∃ h t', Harness.openAt dir logPath true t = (.ok h, t') ∧ h.position = p) ↔
      found = none ∧ p = 0 ∨
        ∃ mark text, found = some (mark, text.toByteArray) ∧ p ≤ (t.files dir).length ∧
          Log.entries text = ((t.files dir).take p).map Path.display := by
  obtain ⟨mark, t₁, hfile⟩ := exists_openFile hspot
  -- it opens at the position that the log tells, and for no other reason it fails
  have hopens : (∃ h t', Harness.openAt dir logPath true t = (.ok h, t') ∧ h.position = p) ↔
      Harness.resumePoint (t.files dir) logPath t = .ok p := by
    constructor
    · rintro ⟨h, t', hopen, rfl⟩
      exact (openAt_resumed hopen).2.2.1
    · intro hresume
      obtain ⟨hle, hopen⟩ := openAt_of_resumePoint hdir hresume
      rw [hopen, Harness.openLog, hfile]
      exact ⟨_, _, rfl, rfl⟩
  rw [hopens]
  cases found with
  | none =>
    rw [Harness.resumePoint, readText_of_free hspot]
    constructor
    · intro hp
      exact .inl ⟨rfl, (Except.ok.inj hp).symm⟩
    · rintro (⟨-, rfl⟩ | ⟨_, _, hsome, -⟩)
      · rfl
      · cases hsome
  | some file =>
    obtain ⟨mark', bytes⟩ := file
    constructor
    · intro hp
      cases hdecode : String.fromUTF8? bytes with
      | none =>
        rw [Harness.resumePoint, FileTree.readText, FileTree.contents_of_fileSpot hspot] at hp
        dsimp only at hp
        rw [hdecode] at hp
        cases hp
      | some text =>
        obtain rfl := bytes_of_fromUTF8? hdecode
        rw [resumePoint_of_fileSpot hspot] at hp
        exact .inr ⟨mark', text, rfl, Log.served_eq_ok_iff.mp hp⟩
    · rintro (⟨hnone, -⟩ | ⟨_, text, hsome, hserved⟩)
      · cases hnone
      · cases hsome
        rw [resumePoint_of_fileSpot hspot]
        exact Log.served_eq_ok_iff.mpr hserved

/-- A text from which no harness opens is a mismatch at its first line that is not the file's. -/
theorem openAt_of_differs (hdir : t.isDir dir = true) {mark : Nat} {text : String}
    (hspot : t.fileSpot logPath = .ok (base, name, some (mark, text.toByteArray)))
    (hnone : ∀ p, Log.entries text ≠ ((t.files dir).take p).map Path.display) :
    ∃ i line, Log.Differs (t.files dir) (Log.entries text) i line ∧
      Harness.openAt dir logPath true t =
        (.error (.logMismatch (i + 1) (Log.expectedAt (t.files dir) i) line), t) := by
  cases hserved : Log.served (t.files dir) text with
  | ok p => exact absurd (Log.served_eq_ok_iff.mp hserved).2 (hnone p)
  | error e =>
    obtain ⟨i, line, hdiffers, rfl⟩ := Log.served_eq_error_iff.mp hserved
    exact ⟨i, line, hdiffers, openAt_of_refused hdir rfl hspot hserved⟩

theorem openAt_of_notText (hdir : t.isDir dir = true) {mark : Nat} {bytes : ByteArray}
    (hspot : t.fileSpot logPath = .ok (base, name, some (mark, bytes)))
    (hbytes : String.fromUTF8? bytes = none) :
    Harness.openAt dir logPath true t = (.error (.io logPath .notText), t) := by
  refine openAt_of_resumePoint_error hdir ?_
  rw [Harness.resumePoint, FileTree.readText, FileTree.contents_of_fileSpot hspot]
  dsimp only
  rw [hbytes]

/-- A log that is gone on from stays as it is, and one that is not there is made, and is empty. -/
theorem tree_of_resumed (hspot : t.fileSpot logPath = .ok (base, name, found)) {h : Harness}
    {t' : FileTree} (hopen : Harness.openAt dir logPath true t = (.ok h, t')) :
    (found ≠ none → t' = t) ∧
      (found = none → FileTree.NewFile base name t t' ∧
        t'.fileSpot logPath = .ok (base, name, some (h.log, .empty))) := by
  obtain ⟨-, -, -, -, hfile⟩ := openAt_resumed hopen
  cases found with
  | none =>
    obtain ⟨t₁, hfile₁, hnew, hspot₁⟩ := FileTree.newFile_openFile hspot
    rw [hfile] at hfile₁
    obtain ⟨hmark, rfl⟩ := Prod.mk.inj (Except.ok.inj hfile₁)
    rw [← hmark] at hspot₁
    exact ⟨fun hne => absurd rfl hne, fun _ => ⟨hnew, hspot₁⟩⟩
  | some file =>
    rw [openFile_of_fileSpot hspot] at hfile
    exact ⟨fun _ => (Prod.mk.inj (Except.ok.inj hfile)).2.symm, nofun⟩

end

/-- **Opening a harness on a log.**  Of the corpus in a directory and a log that is a file, or may
be made, this is all that comes of opening the harness to go on:

* it opens at a position just if no log is there and the position is the start, or if the log is a
  text that says the files before the position; and then as many files as are left are served;
* any other text is a mismatch, at its first line that is not the path of its file;
* what is not a text is an error, and so is a directory that is not there;
* if it opens, a log that is there stays as it is, and otherwise an empty one is made.

A harness that does not open leaves the tree as it is, and the log in it, also if it is not to go
on. -/
theorem openAt_exact {dir logPath : Path} {t : FileTree} {base : List Name} {name : Name}
    {found : Option (Nat × ByteArray)} (hspot : t.fileSpot logPath = .ok (base, name, found)) :
    let files := t.files dir
    let told := fun p => (files.take p).map Path.display
    let opened := fun resume => Harness.openAt dir logPath resume t
    (t.isDir dir = true →
      (∀ p, (∃ h t', opened true = (.ok h, t') ∧ h.position = p) ↔
        found = none ∧ p = 0 ∨
          ∃ mark text, found = some (mark, text.toByteArray) ∧ p ≤ files.length ∧
            Log.Tells text (told p)) ∧
      (∀ mark text es, found = some (mark, text.toByteArray) → Log.Tells text es →
        (∀ p, es ≠ told p) → ∃ i line, Log.Differs files es i line ∧
          opened true = (.error (.logMismatch (i + 1) (Log.expectedAt files i) line), t)) ∧
      ∀ mark bytes, found = some (mark, bytes) → String.fromUTF8? bytes = none →
        opened true = (.error (.io logPath .notText), t)) ∧
    (t.isDir dir = false →
      ∀ resume, opened resume = (.error (.configuration (.missingDirectory dir)), t)) ∧
    (∀ h t', opened true = (.ok h, t') →
      h.files = files ∧ h.position ≤ files.length ∧ h.position + h.remaining = files.length ∧
        (found ≠ none → t' = t) ∧
        (found = none → FileTree.NewFile base name t t' ∧
          t'.fileSpot logPath = .ok (base, name, some (h.log, .empty)))) ∧
    ∀ resume e t', opened resume = (.error e, t') → t' = t := by
  intro files told opened
  refine ⟨fun hdir => ⟨fun p => ?_, ?_, ?_⟩, openAt_of_noDir, ?_, fun _ _ _ => tree_of_not_opened⟩
  · simp only [Log.tells_iff]
    exact openAt_resumed_iff hdir hspot p
  · rintro mark text es rfl htells hnone
    obtain rfl := Log.tells_iff.mp htells
    exact openAt_of_differs hdir hspot hnone
  · rintro mark bytes rfl hbytes
    exact openAt_of_notText hdir hspot hbytes
  · intro h t' hopen
    obtain ⟨-, hfiles, -⟩ := openAt_resumed hopen
    have hle : h.position ≤ files.length := (congrArg List.length hfiles) ▸ h.position_le
    refine ⟨hfiles, hle, ?_, tree_of_resumed hspot hopen⟩
    rw [Harness.remaining, hfiles]
    exact Nat.add_sub_cancel' hle

/-- A log with a carriage return and an empty line, behind the first of two files. -/
theorem openAt_exact_after_first :
    let t : FileTree := ⟨.dir [99] (.file [98] 0 .empty (.file [97] 1 .empty .nil))
      (.file [108] 2 "c/a\r\n\n".toByteArray .nil), [], 3⟩
    t.fileSpot ⟨[108]⟩ = .ok ([], [108], some (2, "c/a\r\n\n".toByteArray)) ∧
      ∃ h, Harness.openAt ⟨[99]⟩ ⟨[108]⟩ true t = (.ok h, t) ∧
        h.position = 1 ∧ h.remaining = 1 := by
  intro t
  have hspot : t.fileSpot ⟨[108]⟩ = .ok ([], [108], some (2, "c/a\r\n\n".toByteArray)) := by cbv
  have hdir : t.isDir ⟨[99]⟩ = true := by cbv
  have hfiles : t.files ⟨[99]⟩ = [⟨[99, 47, 97]⟩, ⟨[99, 47, 98]⟩] := by cbv
  obtain ⟨hchecks, -, hopened, -⟩ := @openAt_exact ⟨[99]⟩ ⟨[108]⟩ t _ _ _ hspot
  have htells : Log.Tells "c/a\r\n\n" (((t.files ⟨[99]⟩).take 1).map Path.display) := by
    rw [Log.tells_iff, hfiles]
    cbv
  obtain ⟨h, t', hopen, hposition⟩ :=
    ((hchecks hdir).1 1).mpr (.inr ⟨2, _, rfl, hfiles ▸ by decide, htells⟩)
  obtain ⟨-, -, hsum, hkept, -⟩ := hopened h t' hopen
  obtain rfl := hkept (Option.some_ne_none _)
  rw [hposition, hfiles] at hsum
  exact ⟨hspot, h, hopen, hposition, Nat.add_left_cancel hsum⟩

end Replay

end PageFuzz
