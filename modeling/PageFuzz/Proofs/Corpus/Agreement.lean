import Mathlib
import PageFuzz.Proofs.Corpus.Pages
import PageFuzz.Proofs.Replay.OwnLog
import PageFuzz.Proofs.Replay.Progress

/-!
# A corpus that is made, replayed and scanned

Three programs meet in one directory.  The first writes numbered pages into it, the second serves
its files one after another, and the third reads all its pages.  If the log of the replay is
elsewhere, then all three mean the same pages: those that were made, each of them once.

* `Elsewhere`              a file that is not below a directory;
* `Serving`                a replay of a corpus after some calls;
* `serving_of_open`, `Serving.page`, `Serving.play`  so it begins, and so it goes on;
* `generate_replay_scan`   the corpus as it is made, replayed and scanned.
-/

namespace PageFuzz

/-- A file at the path is there or can be made, and its place is not below the directory. -/
def FileTree.Elsewhere (t : FileTree) (dir p : Path) : Prop :=
  ∃ base name found, t.fileSpot p = .ok (base, name, found) ∧ ∀ d, t.Reaches dir d → ¬ d <+: base

namespace Replay

theorem log_next (h : Harness) (t : FileTree) : (h.next t).2.1.log = h.log := by
  rcases next_cases h t with ⟨hsame, -⟩ | ⟨_, hnext, -⟩
  · rw [hsame]
  · rw [hnext]

end Replay

namespace Corpus

open Replay (Harness Run Move)

/-! ## the replay of a corpus -/

/-- what is served for a page -/
def served (dir : Path) (page : String × Nat) : Except ReplayError Replay.Page :=
  .ok (.document (pagePath dir page.2) (Replay.refreshHeader.toByteArray ++ page.1.toByteArray))

/-- A replay of the pages of some texts, with a log of the given mark, after `k` calls. -/
structure Serving (dir : Path) (d : List Name) (texts : List String) (f : Folder) (mark k : Nat)
    (r : Run) : Prop where
  harness : ∃ h, r.harness = .ok h ∧
    h.files = (listed texts).map (fun page => pagePath dir page.2) ∧ h.log = mark ∧
    h.position = min k texts.length
  shows : r.tree.Shows dir d f
  pages_eq : r.pages = ((listed texts).map (served dir)).take k ++
    List.replicate (k - texts.length) (.ok .completed)

section
variable {dir logPath : Path} {d : List Name} {texts : List String} {f : Folder} {mark k : Nat}
  {t t' : FileTree} {r : Run}

/-- A harness begins with the first page. -/
theorem serving_of_open {resume : Bool} {h : Harness} {t₁ : FileTree} (hf : Stock dir texts f)
    (hs : t.Shows dir d f) (hfile : t.openFile logPath = .ok (mark, t₁)) (hs₁ : t₁.Shows dir d f)
    (hmark : mark ∉ f.marks)
    (hfirst : resume = true → Harness.resumePoint (t.files dir) logPath t = .ok 0)
    (hopen : Harness.openAt dir logPath resume t = (.ok h, t')) :
    Serving dir d texts f mark 0 ⟨[], .ok h, t'⟩ := by
  have hfiles := Replay.files_of_opened hopen
  rw [hf.files_eq hs] at hfiles
  have hbegin : h.log = mark ∧ h.position = 0 ∧ t'.Shows dir d f := by
    cases resume with
    | false =>
      obtain ⟨-, -, hposition, -, t₂, hfile₂, rfl⟩ := Replay.openAt_fresh hopen
      rw [hfile] at hfile₂
      cases hfile₂
      exact ⟨rfl, hposition, hs₁.update hmark _⟩
    | true =>
      obtain ⟨-, -, hposition, -, hfile₂⟩ := Replay.openAt_resumed hopen
      rw [hfirst rfl] at hposition
      rw [hfile] at hfile₂
      cases hfile₂
      exact ⟨rfl, (Except.ok.inj hposition).symm, hs₁⟩
  obtain ⟨hlog, hposition, hshows⟩ := hbegin
  refine ⟨⟨h, rfl, hfiles, hlog, ?_⟩, hshows, ?_⟩
  · rw [hposition, Nat.zero_min]
  · rw [List.take_zero, Nat.zero_sub]
    rfl

namespace Serving

/-- One call serves the next page, or tells the end. -/
theorem page (h : Serving dir d texts f mark k r) (hf : Stock dir texts f)
    (hmark : mark ∉ f.marks) (logPath : Path) :
    Serving dir d texts f mark (k + 1) (r.step dir logPath .page) := by
  obtain ⟨⟨harness, hharness, hfiles, hlog, hposition⟩, hshows, hpages⟩ := h
  have hlength := length_listed texts
  rw [Run.step_page hharness]
  by_cases hk : k < texts.length
  · have hk' : k < (listed texts).length := hlength.symm ▸ hk
    have hnow : harness.position = k := hposition.trans (Nat.min_eq_left (Nat.le_of_lt hk))
    have hfile : harness.files[harness.position]? = some (pagePath dir (listed texts)[k].2) := by
      rw [hnow, hfiles, List.getElem?_map, List.getElem?_eq_getElem hk']
      rfl
    obtain ⟨after, hnext, hsame, hposition'⟩ :=
      Replay.next_of_readable hfile (hf.contents_eq hshows (List.getElem_mem hk'))
    have hlog' := Replay.log_next harness r.tree
    rw [hnext] at hlog' ⊢
    refine ⟨⟨after, rfl, hsame.trans hfiles, hlog'.trans hlog, ?_⟩, ?_, ?_⟩
    · rw [hposition', hnow]
      omega
    · exact hshows.update (hlog.symm ▸ hmark) _
    · have hmap : k < ((listed texts).map (served dir)).length := by
        rw [List.length_map]
        exact hk'
      have hnone : k - texts.length = 0 := by omega
      have hnone' : k + 1 - texts.length = 0 := by omega
      rw [hpages, hnone, hnone', List.replicate_zero, List.append_nil, List.append_nil,
        ← List.take_append_getElem hmap, List.getElem_map]
      rfl
  · have hend : harness.position = harness.files.length := by
      rw [hposition, hfiles, List.length_map, hlength]
      omega
    rw [Replay.next_of_end hend]
    refine ⟨⟨harness, rfl, hfiles, hlog, ?_⟩, hshows, ?_⟩
    · rw [hposition]
      omega
    · have hall : ∀ n, texts.length ≤ n →
          ((listed texts).map (served dir)).take n = (listed texts).map (served dir) := by
        intro n hn
        exact List.take_of_length_le (by rw [List.length_map, hlength]; exact hn)
      have hmore : k + 1 - texts.length = k - texts.length + 1 := by omega
      rw [hpages, hall k (by omega), hall (k + 1) (by omega), hmore, List.replicate_succ',
        List.append_assoc]

theorem play (h : Serving dir d texts f mark 0 r) (hf : Stock dir texts f) (hmark : mark ∉ f.marks)
    (logPath : Path) (k : Nat) :
    Serving dir d texts f mark k (r.play dir logPath (List.replicate k .page)) := by
  induction k with
  | zero => exact h
  | succ k ih =>
    rw [List.replicate_succ', Run.play_concat]
    exact ih.page hf hmark logPath

end Serving

end

/-! ## all three -/

/-- **What is made is what is replayed and scanned.**  Into an empty directory of a sound tree a
corpus of `count` pages is made, whoever chooses.  Its texts are drawn one after another, and what
the directory lists are exactly their pages, in strict order of their names, so `page10.html` before
`page2.html`.  A harness with its log elsewhere opens on that list, afresh or on a log of no page.
Its first `count` calls serve the pages in that order, each once and with the refresh header, and
all further calls tell the end.  Before this and at any time in it a scan finds the same files in
the same order, and its report is that of the texts, with `count` pages. -/
theorem generate_replay_scan {σ : Type} {dir logPath : Path} {count : Nat} {e : Expander}
    {start : String} {c : Chooser σ} {s s' : σ} {t t' : FileTree} {paths : List Path}
    (hsound : t.Sound) (hempty : t.folder? dir = some .nil)
    (hcorpus : generate dir count e start c s t = (.ok paths, s', t'))
    (helse : t'.Elsewhere dir logPath) (resume : Bool)
    (hfirst : resume = true → Harness.resumePoint (t'.files dir) logPath t' = .ok 0)
    (v : Coverage.Vocabulary) :
    ∃ texts, texts.length = count ∧ Drawn e c start s texts s' ∧ paths = pagePaths dir 1 count ∧
      ∃ pages : List (String × Nat), pages.Perm (texts.zipIdx 1) ∧
        (pages.Pairwise fun a b => pageName a.2 < pageName b.2) ∧
        (10 ≤ count → [10, 2].Sublist (pages.map (·.2))) ∧
        let files := pages.map fun page => pagePath dir page.2
        let report := Coverage.Report.compute v (.ofPages (texts.map Coverage.extract))
        let Scanned := fun u => Coverage.pagesIn u dir = .ok files ∧
          Coverage.scan v u dir = .ok report
        report.pagesScanned = count ∧ Scanned t' ∧
        ∃ h t₁, Harness.openAt dir logPath resume t' = (.ok h, t₁) ∧ h.files = files ∧
          ∀ k, let r := Run.play dir logPath (List.replicate k .page) ⟨[], .ok h, t₁⟩
            r.pages = ((pages.map (served dir)).take k ++
              List.replicate (k - count) (.ok .completed)) ∧ Scanned r.tree := by
  unfold generate at hcorpus
  split at hcorpus
  · obtain ⟨texts, hlength, hpaths, hdrawn, hwritten⟩ := drawn_of_writePages hcorpus
    obtain ⟨d, hstart⟩ := FileTree.shows_of_folder? hsound.here hempty
    obtain ⟨f, hm⟩ := (Making.start hsound hstart).written hwritten
    rw [List.nil_append] at hm
    obtain ⟨base, name, found, hspot, hapart⟩ := helse
    have hbelow : ¬ d <+: base := hapart d hm.shows.reaches
    obtain ⟨mark, t₂, hfile, hmark⟩ := hm.openFile hsound hspot hbelow
    have hshows : t₂.Shows dir d f := hm.shows.openFile hspot hbelow hfile
    obtain ⟨h, t₁, hopen⟩ := Replay.openAt_of_openFile resume hm.shows.isDir hfile hfirst
    have hserving := serving_of_open hm.stock hm.shows hfile hshows hmark hfirst hopen
    have hscanned : ∀ {u : FileTree}, u.Shows dir d f →
        Coverage.pagesIn u dir = .ok ((listed texts).map fun page => pagePath dir page.2) ∧
          Coverage.scan v u dir =
            .ok (.compute v (.ofPages (texts.map Coverage.extract))) := fun hs =>
      ⟨hm.stock.pagesIn_eq hs, hm.stock.scan_eq hs v⟩
    have hfiles := (Replay.files_of_opened hopen).trans (hm.stock.files_eq hm.shows)
    refine ⟨texts, hlength, hdrawn, hpaths, listed texts, listed_perm texts,
      pairwise_listed texts, fun hten => ?_, ?_, hscanned hm.shows, h, t₁, hopen, hfiles,
      fun k => ?_⟩
    · refine sublist_listed ?_ ?_ pageName_ten_lt <;> rw [List.mem_range'_1] <;> omega
    · rw [← hlength]
      exact (Coverage.Observation.pages_ofPages _).trans (List.length_map _)
    · have hk := hserving.play hm.stock hmark logPath k
      exact ⟨hlength ▸ hk.pages_eq, hscanned hk.shows⟩
  · cases hcorpus

/-- Two pages of two literals, with the log beside the directory: the third call tells the end. -/
theorem generate_replay_scan_of_two :
    let e : Expander := ⟨⟨[("p", [.literal "a", .literal "b"])]⟩, {}⟩
    let here : FileTree := .ofHere [[99]]
    let dir : Path := ⟨[Path.dot]⟩
    let logPath : Path := ⟨[Path.slash, 108]⟩
    ∃ paths t' h t₁, generate dir 2 e "p" (.scripted 0) [1, 0] here = (.ok paths, [], t') ∧
      Harness.openAt dir logPath false t' = (.ok h, t₁) ∧ h.files.length = 2 ∧
      (Run.play dir logPath (List.replicate 3 .page) ⟨[], .ok h, t₁⟩).pages.getLast? =
        some (.ok .completed) := by
  intro e here dir logPath
  obtain ⟨paths, t', hcorpus, hspot, hhere⟩ : ∃ paths t',
      generate dir 2 e "p" (.scripted 0) [1, 0] here = (.ok paths, [], t') ∧
        t'.fileSpot logPath = .ok ([], [108], none) ∧ t'.here = [[99]] :=
    ⟨_, _, by cbv, by cbv, by cbv⟩
  have hempty : here.folder? dir = some .nil := by cbv
  have hreach : t'.Reaches dir [[99]] := by
    have hnames : dir.names = [[Path.dot]] := by cbv
    have hrelative : dir.isAbsolute = false := by cbv
    refine ⟨by decide, Place.mostLinks, ?_⟩
    rw [hnames, hrelative, if_neg Bool.false_ne_true, hhere]
    exact .dot .done
  have helse : t'.Elsewhere dir logPath := by
    refine ⟨[], [108], none, hspot, fun d hd hprefix => ?_⟩
    rw [hd.unique hreach] at hprefix
    exact absurd hprefix (by decide)
  have hfirst : false = true → Harness.resumePoint (t'.files dir) logPath t' = .ok 0 :=
    fun hresume => absurd hresume Bool.false_ne_true
  obtain ⟨texts, hlength, -, -, pages, hperm, -, -, -, -, h, t₁, hopen, hfiles, hplay⟩ :=
    generate_replay_scan (FileTree.sound_ofHere [[99]]) hempty hcorpus helse false hfirst .reference
  have hcount : pages.length = 2 := by rw [hperm.length_eq, List.length_zipIdx, hlength]
  refine ⟨paths, t', h, t₁, hcorpus, hopen, ?_, ?_⟩
  · rw [hfiles, List.length_map, hcount]
  · rw [(hplay 3).1]
    exact List.getLast?_concat

end Corpus

end PageFuzz
