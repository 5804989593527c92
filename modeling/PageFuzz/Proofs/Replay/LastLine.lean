import Mathlib
import PageFuzz.Proofs.Replay.Progress

/-!
# The last line of a log

A log reads the same whether or not its last line ends with a line feed, and a replay goes on after
it.  But what is added to the log begins a line of its own only after a line feed; otherwise the
first path that is served is written onto the last line, and the log is accepted no more.

* `Log.Terminated`              the last line, if there is one, ends with a line feed;
* `Log.entries_append`          then it is read apart from what is added;
* `Log.served_append`           and the log with more files is accepted;
* `Log.served_of_unterminated`  otherwise it is a mismatch at the last line;
* `openAt_of_resumed`           a replay that was opened on an earlier log, and is opened once more.
-/

namespace PageFuzz

/-- A path of printable ASCII is shown on one line. -/
theorem Path.onOneLine_of_printable {p : Path} (h : ∀ b ∈ p.bytes, 32 ≤ b.toNat ∧ b.toNat < 127) :
    p.OnOneLine := by
  have hshown : p.display.toList = p.bytes.map fun b => Char.ofNat b.toNat :=
    Text.Utf8.toList_lossy_of_ascii fun b hb => Nat.lt_trans (h b hb).2 (by decide)
  have hcontrol : ∀ c ∈ p.display.toList, 32 ≤ c.toNat := by
    intro c hc
    rw [hshown] at hc
    obtain ⟨b, hb, rfl⟩ := List.mem_map.mp hc
    have hvalid : b.toNat.isValidChar := .inl (Nat.lt_trans (h b hb).2 (by decide))
    rw [Char.toNat_ofNat, if_pos hvalid]
    exact (h b hb).1
  refine ⟨fun hfeed => absurd (hcontrol _ hfeed) (by decide), fun hreturn => ?_⟩
  exact absurd (hcontrol _ (List.mem_of_mem_getLast? hreturn)) (by decide)

namespace Text

theorem lines_append_feed (l rest : List Char) :
    lines (l ++ ['\n'] ++ rest) = lines (l ++ ['\n']) ++ lines rest := by
  rw [lines_append l [], lines_nil, List.append_nil, List.append_assoc, List.singleton_append,
    lines_append]

/-- Every text is some lines that have ended and one that has not. -/
theorem exists_last_line (l : List Char) :
    ∃ ended last, l = ended ++ last ∧ (ended = [] ∨ ended.getLast? = some '\n') ∧
      '\n' ∉ last := by
  induction l with
  | nil => exact ⟨[], [], rfl, .inl rfl, List.not_mem_nil⟩
  | cons c l ih =>
    obtain ⟨ended, last, rfl, hended, hlast⟩ := ih
    by_cases hnone : ended = []
    · subst hnone
      by_cases hc : c = '\n'
      · exact ⟨[c], last, rfl, .inr (by rw [hc]; rfl), hlast⟩
      · refine ⟨[], c :: last, rfl, .inl rfl, ?_⟩
        rw [List.mem_cons]
        exact not_or.mpr ⟨Ne.symm hc, hlast⟩
    · have hfeed : ended.getLast? = some '\n' := hended.resolve_left hnone
      refine ⟨c :: ended, last, rfl, .inr ?_, hlast⟩
      rw [List.getLast?_cons_of_ne_nil hnone]
      exact hfeed

end Text

namespace Replay.Log

open Text

/-- The last line, if there is one, ends with a line feed. -/
def Terminated (text : String) : Prop := text = "" ∨ text.toList.getLast? = some '\n'

instance (text : String) : Decidable (Terminated text) := inferInstanceAs (Decidable (_ ∨ _))

theorem entries_append {text : String} (h : Terminated text) (rest : String) :
    entries (text ++ rest) = entries text ++ entries rest := by
  rcases h with rfl | hfeed
  · rw [String.empty_append]
    rfl
  · obtain ⟨l, hl⟩ := List.getLast?_eq_some_iff.mp hfeed
    unfold entries
    rw [String.toList_append, hl, lines_append_feed, List.filter_append, List.map_append]

theorem entries_ended {s : String} (hfeed : '\n' ∉ s.toList)
    (hreturn : s.toList.getLast? ≠ some '\r') (hne : s ≠ "") (rest : String) :
    entries (s ++ "\n" ++ rest) = s :: entries rest := by
  have htext : (s ++ "\n" ++ rest).toList = s.toList ++ '\n' :: rest.toList := by
    rw [String.toList_append, String.toList_append, List.append_assoc]
    rfl
  have hkeep : (!s.toList.isEmpty) = true := by simpa using hne
  unfold entries
  rw [htext, lines_append, splitOnP_newline hfeed, List.map_singleton, dropReturn_of_ne hreturn,
    List.singleton_append, List.filter_cons, if_pos hkeep, List.map_cons, String.ofList_toList]

theorem entries_unended {s : String} (hfeed : '\n' ∉ s.toList) (hne : s ≠ "") :
    entries s = [s] := by
  have hempty : s.toList.isEmpty = false := by simpa using hne
  unfold entries lines
  rw [splitOnP_newline hfeed]
  unfold linesOfPieces
  rw [hempty, if_neg Bool.false_ne_true, List.filter_cons, hempty, Bool.not_false, if_pos rfl,
    List.filter_nil, List.map_singleton, String.ofList_toList]

theorem exists_unended {text : String} (h : ¬ Terminated text) :
    ∃ ended last, text = ended ++ last ∧ Terminated ended ∧ last ≠ "" ∧ '\n' ∉ last.toList := by
  obtain ⟨ended, last, htext, hended, hlast⟩ := exists_last_line text.toList
  have hsplit : text = .ofList ended ++ .ofList last := by
    rw [← String.ofList_append, ← htext, String.ofList_toList]
  have hterm : Terminated (.ofList ended) := by
    rcases hended with rfl | hfeed
    · exact .inl rfl
    · right
      rw [String.toList_ofList]
      exact hfeed
  refine ⟨.ofList ended, .ofList last, hsplit, hterm, ?_, ?_⟩
  · intro hnone
    rw [hnone, String.append_empty] at hsplit
    exact h (hsplit ▸ hterm)
  · rw [String.toList_ofList]
    exact hlast

/-! ## a log that was accepted, with more files -/

section
variable {files : List Path} {n : Nat} {text : String}

theorem served_append (hterm : Terminated text) (hserved : served files text = .ok n) {k : Nat}
    (hn : n ≤ k) (hk : k ≤ files.length)
    (hgood : ∀ p ∈ (files.take k).drop n, p.OnOneLine)
    (hslash : ∀ p ∈ (files.take k).drop n, '/' ∈ p.display.toList) :
    served files (text ++ ofServed ((files.take k).drop n)) = .ok k := by
  have hprior : files.take n = (files.take k).take n := by
    rw [List.take_take, Nat.min_eq_left hn]
  refine served_eq_ok_iff.mpr ⟨hk, ?_⟩
  rw [entries_append hterm, (served_eq_ok_iff.mp hserved).2, entries_ofServed hgood hslash,
    ← List.map_append, hprior, List.take_append_drop]

/-- What is added to a line that has not ended is read as part of it. -/
theorem entries_joined {last : String} (hfeed : '\n' ∉ last.toList) {p : Path}
    (hgood : p.OnOneLine) (hslash : '/' ∈ p.display.toList) (ps : List Path) :
    entries (last ++ ofServed (p :: ps)) = (last ++ p.display) :: entries (ofServed ps) := by
  have hshown : p.display.toList ≠ [] := List.ne_nil_of_mem hslash
  have htext : last ++ ofServed (p :: ps) = last ++ p.display ++ "\n" ++ ofServed ps := by
    rw [ofServed_cons, line]
    simp only [String.append_assoc]
  have hone : '\n' ∉ (last ++ p.display).toList := by
    rw [String.toList_append, List.mem_append]
    exact not_or.mpr ⟨hfeed, hgood.1⟩
  have hreturn : (last ++ p.display).toList.getLast? ≠ some '\r' := by
    rw [String.toList_append, List.getLast?_append_of_ne_nil _ hshown]
    exact hgood.2
  have hne : last ++ p.display ≠ "" := by
    intro hnone
    have hnil := congrArg String.toList hnone
    rw [String.toList_append] at hnil
    exact hshown (List.append_eq_nil_iff.mp hnil).2
  rw [htext, entries_ended hone hreturn hne]

theorem served_of_unterminated (hterm : ¬ Terminated text) (hserved : served files text = .ok n)
    {p : Path} (hgood : p.OnOneLine) (hslash : '/' ∈ p.display.toList) (ps : List Path) :
    ∃ last, files[n - 1]? = some last ∧ served files (text ++ ofServed (p :: ps)) =
      .error (.logMismatch n last.display (last.display ++ p.display)) := by
  obtain ⟨ended, last, rfl, hended, hne, hfeed⟩ := exists_unended hterm
  obtain ⟨hn, hentries⟩ := served_eq_ok_iff.mp hserved
  rw [entries_append hended, entries_unended hfeed hne] at hentries
  obtain ⟨i, rfl⟩ : ∃ i, n = i + 1 := by
    refine Nat.exists_eq_succ_of_ne_zero ?_
    rintro rfl
    simp at hentries
  -- the last line is the last of the files that the log says were served
  rw [← List.take_append_getElem hn, List.map_append, List.map_singleton] at hentries
  obtain ⟨hbefore, hlast⟩ := List.append_inj' hentries rfl
  have hsame : last = files[i].display := List.head_eq_of_cons_eq hlast
  -- and with more written onto it, it is not that file
  have hlonger : last ++ p.display ≠ files[i].display := by
    rw [← hsame]
    intro hshorter
    have hlength := congrArg String.toList hshorter
    rw [String.toList_append] at hlength
    exact List.ne_nil_of_mem hslash (List.append_right_eq_self.mp hlength)
  have hmatch := matchFrom_append 0 (files.take i) (files.drop i)
    ((last ++ p.display) :: entries (ofServed ps))
  rw [List.take_append_drop, List.drop_eq_getElem_cons hn, matchFrom, if_neg hlonger,
    List.length_take, Nat.min_eq_left (Nat.le_of_succ_le hn), Nat.zero_add] at hmatch
  refine ⟨files[i], List.getElem?_eq_getElem hn, ?_⟩
  rw [served, String.append_assoc, entries_append hended, entries_joined hfeed hgood hslash,
    hbefore, hmatch, hsame]

end

end Replay.Log

namespace Replay

/-- **A replay that was resumed, and is resumed once more.**  A harness is opened on an earlier
log, whatever wrote that; some files are served, and the log is left alone.  If no file was served,
or the last line of the earlier log had ended, opening again gives back the harness, which has gone
on by the number of files served.  If that line had not ended, the first of the files served stands
on it, and opening again is a mismatch there that leaves the tree as it is. -/
theorem openAt_of_resumed {dir logPath : Path} {t t' : FileTree} {h₀ : Harness}
    (hopen : Harness.openAt dir logPath true t = (.ok h₀, t'))
    (hlines : ∀ p ∈ h₀.files, p.OnOneLine) :
    ∃ text, (t' = t ∧ t.readText logPath = .ok text ∨
        t.readText logPath = .error .notFound ∧ text = "") ∧
      ∀ ms, Run.Undisturbed dir logPath ⟨[], .ok h₀, t'⟩ ms →
        let r := Run.play dir logPath ms ⟨[], .ok h₀, t'⟩
        let served := servedPaths r.pages
        let again := Harness.openAt dir logPath true r.tree
        r.tree.corpus? dir = some h₀.files →
          (served = [] ∨ Log.Terminated text →
            ∃ h, again = (.ok h, r.tree) ∧ r.harness = .ok h ∧
              h.position = h₀.position + served.length) ∧
          ∀ p ps, served = p :: ps → ¬ Log.Terminated text →
            ∃ last, h₀.files[h₀.position - 1]? = some last ∧
              again = (.error (.logMismatch h₀.position last.display
                (last.display ++ p.display)), r.tree) := by
  obtain ⟨base, name, text, hspot, haccepted, hbefore⟩ := log_of_resumed hopen
  obtain ⟨-, hlisted, -, hpath, -⟩ := openAt_resumed hopen
  refine ⟨text, hbefore, fun ms hms => ?_⟩
  obtain ⟨h, hp⟩ := (Progress.start hspot).play hms
  intro r served again hcorpus
  obtain ⟨hdir, hfiles⟩ := FileTree.corpus?_eq_some.mp hcorpus
  obtain ⟨base', name', hlog⟩ := hp.log_eq
  have hserved : served = (h₀.files.take h.position).drop h₀.position :=
    hp.files_eq ▸ hp.served_eq
  have hgood : ∀ p ∈ served, p.OnOneLine := fun p hmem => hlines p (hp.mem_files hmem)
  have hslash : ∀ p ∈ served, '/' ∈ p.display.toList := by
    intro p hmem
    have hin : p ∈ h₀.files := hp.mem_files hmem
    rw [hlisted] at hin
    exact FileTree.slash_mem_of_mem_files hin
  have hposition : h.position = h₀.position + served.length := hp.position_eq
  rw [← String.toByteArray_append] at hlog
  refine ⟨fun hwhole => ⟨h, ?_, hp.harness_eq, hposition⟩, fun p ps hfirst hterm => ?_⟩
  · have hagain : Log.served h₀.files (text ++ Log.ofServed served) = .ok h.position := by
      rcases hwhole with hnone | hterm
      · rw [hnone, List.length_nil, Nat.add_zero] at hposition
        rw [hnone, Log.ofServed_nil, String.append_empty, haccepted, hposition]
      · rw [hserved] at hgood hslash ⊢
        exact Log.served_append hterm haccepted hp.position_ge (hp.files_eq ▸ h.position_le)
          hgood hslash
    rw [← hp.files_eq] at hfiles hagain
    exact openAt_of_served hdir hfiles (hp.logPath_eq.trans hpath) hlog hagain
  · have hin : p ∈ served := hfirst ▸ List.mem_cons_self
    obtain ⟨last, hlast, hmismatch⟩ :=
      Log.served_of_unterminated hterm haccepted (hgood p hin) (hslash p hin) ps
    rw [← hfirst] at hmismatch
    exact ⟨last, hlast, openAt_of_refused hdir hfiles hlog hmismatch⟩

/-- One file, served after a log that had ended its last line. -/
theorem openAt_of_resumed_after_line :
    let dir : Path := ⟨[99]⟩
    let logPath : Path := ⟨[108]⟩
    let corpus : Folder := .file [97] 0 ⟨#[65]⟩ (.file [98] 1 ⟨#[66]⟩ .nil)
    let t : FileTree := ⟨.dir [99] corpus (.file [108] 2 "c/a\n".toByteArray .nil), [], 3⟩
    ∃ h, Harness.openAt dir logPath true t = (.ok h, t) ∧ h.position = 1 ∧
      let r := Run.play dir logPath [.page] ⟨[], .ok h, t⟩
      ∃ h', Harness.openAt dir logPath true r.tree = (.ok h', r.tree) ∧ h'.position = 2 := by
  intro dir logPath corpus t
  let h : Harness := ⟨[⟨[99, 47, 97]⟩, ⟨[99, 47, 98]⟩], 1, logPath, 2, by decide⟩
  have hspot : t.fileSpot logPath = .ok ([], [108], some (2, "c/a\n".toByteArray)) := by cbv
  have hdir : t.isDir dir = true := by cbv
  have hfiles : t.files dir = h.files := by cbv
  have hserved : Log.served h.files "c/a\n" = .ok h.position := by cbv
  have hopen : Harness.openAt dir logPath true t = (.ok h, t) :=
    openAt_of_served hdir hfiles rfl hspot hserved
  have hlines : ∀ p ∈ h.files, p.OnOneLine := by
    intro p hp
    apply Path.onOneLine_of_printable
    rcases List.mem_pair.mp hp with rfl | rfl <;> simp
  obtain ⟨text, htext, hplay⟩ := openAt_of_resumed hopen hlines
  have hread : t.readText logPath = .ok "c/a\n" := readText_of_fileSpot hspot
  have hterm : Log.Terminated text := by
    rcases htext with ⟨-, htext⟩ | ⟨hnone, -⟩
    · rw [hread] at htext
      cases htext
      decide
    · rw [hread] at hnone
      cases hnone
  refine ⟨h, hopen, rfl, ?_⟩
  intro r
  have hcorpus : r.tree.corpus? dir = some h.files := by cbv
  have hcount : (servedPaths r.pages).length = 1 := by cbv
  obtain ⟨hwhole, -⟩ := hplay [.page] ⟨trivial, trivial⟩ hcorpus
  obtain ⟨h', hagain, -, hposition⟩ := hwhole (.inr hterm)
  refine ⟨h', hagain, ?_⟩
  rw [hposition, hcount]

/-- The second file is served after a log that did not end its last line, and is written onto it. -/
theorem openAt_of_joined_lines :
    let dir : Path := ⟨[99]⟩
    let logPath : Path := ⟨[108]⟩
    let corpus : Folder := .file [97] 0 ⟨#[65]⟩ (.file [98] 1 ⟨#[66]⟩ .nil)
    let t : FileTree := ⟨.dir [99] corpus (.file [108] 2 "c/a".toByteArray .nil), [], 3⟩
    ∃ h, Harness.openAt dir logPath true t = (.ok h, t) ∧ h.position = 1 ∧
      (∀ p ∈ h.files, ∀ b ∈ p.bytes, 32 ≤ b.toNat ∧ b.toNat < 127) ∧
      let r := Run.play dir logPath [.page] ⟨[], .ok h, t⟩
      servedPaths r.pages = [⟨[99, 47, 98]⟩] ∧
      Harness.openAt dir logPath true r.tree =
        (.error (.logMismatch 1 "c/a" "c/ac/b"), r.tree) := by
  intro dir logPath corpus t
  let h : Harness := ⟨[⟨[99, 47, 97]⟩, ⟨[99, 47, 98]⟩], 1, logPath, 2, by decide⟩
  have hspot : t.fileSpot logPath = .ok ([], [108], some (2, "c/a".toByteArray)) := by cbv
  have hdir : t.isDir dir = true := by cbv
  have hfiles : t.files dir = h.files := by cbv
  have hserved : Log.served h.files "c/a" = .ok h.position := by cbv
  have hplain : ∀ p ∈ h.files, ∀ b ∈ p.bytes, 32 ≤ b.toNat ∧ b.toNat < 127 := by
    intro p hp
    rcases List.mem_pair.mp hp with rfl | rfl <;> simp
  have hopen : Harness.openAt dir logPath true t = (.ok h, t) :=
    openAt_of_served hdir hfiles rfl hspot hserved
  refine ⟨h, hopen, rfl, hplain, ?_⟩
  intro r
  have hdir' : r.tree.isDir dir = true := by cbv
  have hfiles' : r.tree.files dir = h.files := by cbv
  have hspot' : r.tree.fileSpot logPath =
      .ok ([], [108], some (2, "c/ac/b\n".toByteArray)) := by cbv
  have hrefused : Log.served h.files "c/ac/b\n" =
      .error (.logMismatch 1 "c/a" "c/ac/b") := by cbv
  exact ⟨by cbv, openAt_of_refused hdir' hfiles' hspot' hrefused⟩

end Replay

end PageFuzz
