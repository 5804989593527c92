import Mathlib
import PageFuzz.Proofs.Files.Contents
import PageFuzz.Proofs.Files.Listing
import PageFuzz.Proofs.Replay.Log
import PageFuzz.Proofs.Replay.Opening

/-!
# A replay that is interrupted

A harness that is closed and opened again is the harness that it was, because its log has one line
for each file that was served.  So a replay with any number of interruptions serves the pages of
one without, as long as every path that was served is shown on one line; after any other path the
harness does not open again.

* `Move`, `Run.play`        a replay with its interruptions, and what others do meanwhile;
* `Steady`                  the log has the lines of the files that were served;
* `steady_open`, `steady_next`  so it is at the start and after each page;
* `openAt_of_steady`        opening again gives back the harness;
* `openAt_of_broken`        or a mismatch, after a path that is not on one line;
* `play_eq_uninterrupted`   a replay and its interruptions.
-/

namespace PageFuzz

/-- the files that a replay finds in a directory, if there is that directory -/
def FileTree.corpus? (t : FileTree) (dir : Path) : Option (List Path) :=
  if t.isDir dir then some (t.files dir) else none

theorem FileTree.corpus?_update (t : FileTree) (mark : Nat) (change : ByteArray → ByteArray)
    (dir : Path) : (t.update mark change).corpus? dir = t.corpus? dir := by
  unfold corpus?
  rw [isDir_update, files_update]

theorem FileTree.corpus?_eq_some {t : FileTree} {dir : Path} {files : List Path} :
    t.corpus? dir = some files ↔ t.isDir dir = true ∧ t.files dir = files := by
  unfold corpus?
  split
  · next h => simp [h]
  · next h => simp [h]

namespace Replay

/-! ## interruptions -/

inductive Move where
  /-- the next page is asked for -/
  | page
  /-- the harness is closed and opened again -/
  | restart
  /-- others change the tree -/
  | meanwhile (change : FileTree → FileTree)

/-- The answers of a replay so far, its harness or why that could not be opened again, and the
tree. -/
structure Run where
  pages : List (Except ReplayError Page)
  harness : Except ReplayError Harness
  tree : FileTree

namespace Run

def step (dir logPath : Path) (r : Run) : Move → Run
  | .page =>
    match r.harness with
    | .error _ => r
    | .ok h =>
      let served := h.next r.tree
      { pages := r.pages ++ [served.1], harness := .ok served.2.1, tree := served.2.2 }
  | .restart =>
    match r.harness with
    | .error _ => r
    | .ok _ =>
      let opened := Harness.openAt dir logPath true r.tree
      { r with harness := opened.1, tree := opened.2 }
  | .meanwhile change => { r with tree := change r.tree }

def play (dir logPath : Path) (ms : List Move) (r : Run) : Run := ms.foldl (step dir logPath) r

/-- Without a harness only others still act. -/
theorem step_of_error {dir logPath : Path} {r : Run} {e : ReplayError} (h : r.harness = .error e)
    {m : Move} (hm : ∀ change, m ≠ .meanwhile change) : r.step dir logPath m = r := by
  cases m with
  | page => rw [step, h]
  | restart => rw [step, h]
  | meanwhile change => exact absurd rfl (hm change)

theorem step_page {dir logPath : Path} {r : Run} {h : Harness} (hr : r.harness = .ok h) :
    r.step dir logPath .page =
      ⟨r.pages ++ [(h.next r.tree).1], .ok (h.next r.tree).2.1, (h.next r.tree).2.2⟩ := by
  rw [step, hr]

theorem play_concat (dir logPath : Path) (ms : List Move) (m : Move) (r : Run) :
    play dir logPath (ms ++ [m]) r = step dir logPath (play dir logPath ms r) m := by
  unfold play
  rw [List.foldl_append]
  rfl

end Run

def Move.isRestart : Move → Bool
  | .restart => true
  | _ => false

/-- the same moves without the interruptions -/
def uninterrupted (ms : List Move) : List Move := ms.filter (!·.isRestart)

theorem uninterrupted_concat (ms : List Move) (m : Move) :
    uninterrupted (ms ++ [m]) = uninterrupted ms ++ if m.isRestart then [] else [m] := by
  unfold uninterrupted
  rw [List.filter_append]
  cases m <;> rfl

/-- the files that were served -/
def servedPaths (pages : List (Except ReplayError Page)) : List Path :=
  pages.filterMap fun
    | .ok (.document path _) => some path
    | _ => none

theorem servedPaths_concat (pages : List (Except ReplayError Page))
    (page : Except ReplayError Page) :
    servedPaths (pages ++ [page]) = servedPaths pages ++ servedPaths [page] :=
  List.filterMap_append

/-! ## a log that is up to date -/

/-- The directory has the files of the harness, and the log has the lines of those served. -/
structure Steady (dir logPath : Path) (h : Harness) (t : FileTree) : Prop where
  corpus_eq : t.corpus? dir = some h.files
  logPath_eq : h.logPath = logPath
  log_eq : ∃ base name, t.fileSpot logPath =
    .ok (base, name, some (h.log, (Log.ofServed (h.files.take h.position)).toByteArray))

section
variable {dir logPath : Path} {h : Harness} {t t' : FileTree}

theorem Steady.contents_eq (hs : Steady dir logPath h t) :
    t.contents logPath = .ok (Log.ofServed (h.files.take h.position)).toByteArray := by
  obtain ⟨base, name, hspot⟩ := hs.log_eq
  exact FileTree.contents_of_fileSpot hspot

theorem Steady.slash_mem (hs : Steady dir logPath h t) :
    ∀ p ∈ h.files.take h.position, '/' ∈ p.display.toList := by
  intro p hp
  have hfiles := (FileTree.corpus?_eq_some.mp hs.corpus_eq).2
  rw [← hfiles] at hp
  exact FileTree.slash_mem_of_mem_files (List.mem_of_mem_take hp)

/-- A harness that has just been opened has an empty log. -/
theorem steady_open (hopen : Harness.openAt dir logPath false t = (.ok h, t'))
    (hcorpus : t'.corpus? dir = t.corpus? dir) : Steady dir logPath h t' ∧ h.position = 0 := by
  obtain ⟨hdir, hfiles, hposition, hpath, -⟩ := openAt_fresh hopen
  obtain ⟨base, name, log, hspot, hfresh⟩ := fileSpot_openAt hopen
  have hlog : log = (Log.ofServed (h.files.take h.position)).toByteArray := by
    rw [hfresh rfl, hposition]
    rfl
  refine ⟨⟨?_, hpath, base, name, hlog ▸ hspot⟩, hposition⟩
  rw [hcorpus]
  exact FileTree.corpus?_eq_some.mpr ⟨hdir, hfiles.symm⟩

/-- A page is the next file, with its line in the log, or it changes nothing. -/
theorem next_cases (h : Harness) (t : FileTree) :
    ((h.next t).2 = (h, t) ∧ servedPaths [(h.next t).1] = []) ∨
      ∃ hp : h.position < h.files.length,
        (h.next t).2 = ({ h with position := h.position + 1, position_le := hp },
          t.update h.log (· ++ (Log.line h.files[h.position]).toByteArray)) ∧
        servedPaths [(h.next t).1] = [h.files[h.position]] := by
  unfold Harness.next
  split
  · next hp =>
    dsimp only
    split
    · exact .inl ⟨rfl, rfl⟩
    · exact .inr ⟨hp, rfl, rfl⟩
  · exact .inl ⟨rfl, rfl⟩

/-- After a page the log is up to date again, and the page is the one that the log has more. -/
theorem steady_next (hs : Steady dir logPath h t) :
    Steady dir logPath (h.next t).2.1 (h.next t).2.2 ∧
      (h.next t).2.1.files.take (h.next t).2.1.position =
        h.files.take h.position ++ servedPaths [(h.next t).1] := by
  rcases next_cases h t with ⟨hsame, hserved⟩ | ⟨hp, hnext, hserved⟩
  · rw [hsame, hserved, List.append_nil]
    exact ⟨hs, rfl⟩
  · rw [hnext, hserved]
    have htake : h.files.take (h.position + 1) = h.files.take h.position ++ [h.files[h.position]] :=
      (List.take_append_getElem hp).symm
    refine ⟨⟨?_, hs.logPath_eq, ?_⟩, htake⟩
    · rw [FileTree.corpus?_update]
      exact hs.corpus_eq
    · obtain ⟨base, name, hspot⟩ := hs.log_eq
      refine ⟨base, name, ?_⟩
      show FileTree.fileSpot _ logPath = .ok (base, name, some (h.log,
        (Log.ofServed (h.files.take (h.position + 1))).toByteArray))
      rw [htake, Log.ofServed_concat, String.toByteArray_append]
      exact FileTree.fileSpot_update _ hspot

/-! ## opening again -/

/-- Opening again gives back the harness, if all paths that were served are on one line. -/
theorem openAt_of_steady (hs : Steady dir logPath h t)
    (hgood : ∀ p ∈ h.files.take h.position, p.OnOneLine) :
    Harness.openAt dir logPath true t = (.ok h, t) := by
  obtain ⟨hdir, hfiles⟩ := FileTree.corpus?_eq_some.mp hs.corpus_eq
  obtain ⟨base, name, hspot⟩ := hs.log_eq
  have hserved := Log.served_ofServed h.position_le hgood hs.slash_mem
  exact openAt_of_served hdir hfiles hs.logPath_eq hspot hserved

/-- After a path that is not on one line opening again fails, and leaves the tree as it is. -/
theorem openAt_of_broken (hs : Steady dir logPath h t)
    (hbroken : ∃ p ∈ h.files.take h.position, ¬ p.OnOneLine) :
    ∃ line expected found,
      Harness.openAt dir logPath true t = (.error (.logMismatch line expected found), t) := by
  obtain ⟨line, expected, found, hserved⟩ := Log.served_of_broken hbroken hs.slash_mem
  obtain ⟨hdir, hfiles⟩ := FileTree.corpus?_eq_some.mp hs.corpus_eq
  obtain ⟨base, name, hspot⟩ := hs.log_eq
  exact ⟨line, expected, found, openAt_of_refused hdir hfiles hspot hserved⟩

/-- a change that leaves the files of the directory and the log as they are -/
def LeavesAlone (dir logPath : Path) (change : FileTree → FileTree) : Prop :=
  ∀ t, (change t).corpus? dir = t.corpus? dir ∧ (change t).fileSpot logPath = t.fileSpot logPath

theorem steady_meanwhile {change : FileTree → FileTree} (hs : Steady dir logPath h t)
    (hchange : LeavesAlone dir logPath change) : Steady dir logPath h (change t) where
  corpus_eq := (hchange t).1.trans hs.corpus_eq
  logPath_eq := hs.logPath_eq
  log_eq := (hchange t).2 ▸ hs.log_eq

end

/-! ## with and without interruptions -/

/-- A replay that could not be opened again, after the first pages of another. -/
structure Stopped (run whole : Run) : Prop where
  pages_prefix : run.pages <+: whole.pages
  mismatch : ∃ line expected found, run.harness = .error (.logMismatch line expected found)
  broken : ∃ p ∈ servedPaths whole.pages, ¬ p.OnOneLine

/-- A replay is as the one without interruptions, or it has stopped. -/
structure Follows (dir logPath : Path) (h : Harness) (run whole : Run) : Prop where
  harness_eq : whole.harness = .ok h
  steady : Steady dir logPath h whole.tree
  served_eq : servedPaths whole.pages = h.files.take h.position
  run_eq : run = whole ∨ Stopped run whole

namespace Follows

variable {dir logPath : Path} {h : Harness} {run whole : Run}

theorem page (hf : Follows dir logPath h run whole) :
    Follows dir logPath (h.next whole.tree).2.1 (run.step dir logPath .page)
      (whole.step dir logPath .page) := by
  obtain ⟨hsteady, htake⟩ := steady_next hf.steady
  have hwhole : whole.step dir logPath .page = _ := Run.step_page hf.harness_eq
  have hserved : servedPaths (whole.pages ++ [(h.next whole.tree).1]) =
      servedPaths whole.pages ++ servedPaths [(h.next whole.tree).1] := servedPaths_concat _ _
  rw [hwhole]
  refine ⟨rfl, hsteady, ?_, ?_⟩
  · rw [hserved, htake, hf.served_eq]
  · rcases hf.run_eq with rfl | ⟨hpages, ⟨line, expected, found, hmismatch⟩, p, hp, hbroken⟩
    · exact .inl hwhole
    · rw [Run.step_of_error (m := .page) hmismatch nofun]
      refine .inr ⟨hpages.trans (List.prefix_append _ _), ⟨line, expected, found, hmismatch⟩, p, ?_,
        hbroken⟩
      rw [hserved]
      exact List.mem_append_left _ hp

/-- As long as all paths are on one line the replay has not stopped, -/
theorem eq_of_good (hf : Follows dir logPath h run whole)
    (hgood : ∀ p ∈ servedPaths whole.pages, p.OnOneLine) : run = whole := by
  rcases hf.run_eq with hrun | ⟨-, -, p, hp, hbroken⟩
  · exact hrun
  · exact absurd (hgood p hp) hbroken

/-- and does not stop when it is opened again. -/
theorem restart_of_good (hf : Follows dir logPath h run whole)
    (hgood : ∀ p ∈ servedPaths whole.pages, p.OnOneLine) :
    run.step dir logPath .restart = whole := by
  have hopen := openAt_of_steady hf.steady (hf.served_eq ▸ hgood)
  rw [hf.eq_of_good hgood, Run.step, hf.harness_eq]
  dsimp only
  rw [hopen, ← hf.harness_eq]

/-- After a path that is not on one line it stops. -/
theorem restart_of_broken (hf : Follows dir logPath h run whole)
    (hbroken : ∃ p ∈ servedPaths whole.pages, ¬ p.OnOneLine) :
    Stopped (run.step dir logPath .restart) whole ∧
      (run.step dir logPath .restart).tree = run.tree := by
  rcases hf.run_eq with rfl | hstopped
  · obtain ⟨line, expected, found, hopen⟩ := openAt_of_broken hf.steady (hf.served_eq ▸ hbroken)
    rw [Run.step, hf.harness_eq]
    dsimp only
    rw [hopen]
    exact ⟨⟨List.prefix_rfl, ⟨line, expected, found, rfl⟩, hbroken⟩, rfl⟩
  · obtain ⟨line, expected, found, hmismatch⟩ := hstopped.mismatch
    rw [Run.step_of_error (m := .restart) hmismatch nofun]
    exact ⟨hstopped, rfl⟩

theorem restart (hf : Follows dir logPath h run whole) :
    Follows dir logPath h (run.step dir logPath .restart) whole := by
  refine ⟨hf.harness_eq, hf.steady, hf.served_eq, ?_⟩
  by_cases hgood : ∀ p ∈ servedPaths whole.pages, p.OnOneLine
  · exact .inl (hf.restart_of_good hgood)
  · have hbroken : ∃ p ∈ servedPaths whole.pages, ¬ p.OnOneLine := by simpa using hgood
    exact .inr (hf.restart_of_broken hbroken).1

theorem meanwhile {change : FileTree → FileTree} (hf : Follows dir logPath h run whole)
    (hchange : LeavesAlone dir logPath change) :
    Follows dir logPath h (run.step dir logPath (.meanwhile change))
      (whole.step dir logPath (.meanwhile change)) := by
  refine ⟨hf.harness_eq, steady_meanwhile hf.steady hchange, hf.served_eq, ?_⟩
  rcases hf.run_eq with rfl | ⟨hpages, hmismatch, hbroken⟩
  · exact .inl rfl
  · exact .inr ⟨hpages, hmismatch, hbroken⟩

/-- Whatever the moves, a replay follows the one without interruptions. -/
theorem play (hf : Follows dir logPath h run run) (ms : List Move)
    (hms : ∀ change, .meanwhile change ∈ ms → LeavesAlone dir logPath change) :
    ∃ h', h'.files = h.files ∧ Follows dir logPath h' (run.play dir logPath ms)
      (run.play dir logPath (uninterrupted ms)) := by
  induction ms using List.reverseRecOn with
  | nil => exact ⟨h, rfl, hf⟩
  | append_singleton ms m ih =>
    obtain ⟨h', hfiles, hprior⟩ := ih fun change hc => hms change (List.mem_append_left _ hc)
    rw [Run.play_concat, uninterrupted_concat]
    cases m with
    | page =>
      refine ⟨_, ?_, Run.play_concat dir logPath (uninterrupted ms) .page run ▸ hprior.page⟩
      rw [Harness.files_next, hfiles]
    | restart =>
      -- the replay without interruptions does not move
      show ∃ h', h'.files = h.files ∧ Follows dir logPath h' _
        (run.play dir logPath (uninterrupted ms ++ []))
      rw [List.append_nil]
      exact ⟨h', hfiles, hprior.restart⟩
    | meanwhile change =>
      have hchange := hms change (List.mem_append_right _ (List.mem_singleton.mpr rfl))
      refine ⟨h', hfiles, ?_⟩
      exact Run.play_concat dir logPath (uninterrupted ms) (.meanwhile change) run ▸
        hprior.meanwhile hchange

end Follows

/-- **A replay and its interruptions.**  A corpus is opened afresh; then pages are asked for, the
harness is closed and opened again, and others change files, in any order, while the corpus keeps
its files and nobody else writes the log.  As long as all paths that were served are shown on one
line, the interruptions make no difference: opening again gives back the same harness, at the number
of files served, with the same answers behind it and the same log.  Otherwise opening again is a
mismatch that leaves the tree as it is, and no later page is served.  At no time does a replay go on
from another position than the one without interruptions. -/
theorem play_eq_uninterrupted {dir logPath : Path} {t t' : FileTree} {h₀ : Harness}
    (hopen : Harness.openAt dir logPath false t = (.ok h₀, t'))
    (hcorpus : t'.corpus? dir = t.corpus? dir) (ms : List Move)
    (hms : ∀ change, .meanwhile change ∈ ms → LeavesAlone dir logPath change) :
    let start : Run := ⟨[], .ok h₀, t'⟩
    let run := start.play dir logPath ms
    let whole := start.play dir logPath (uninterrupted ms)
    let again := run.step dir logPath .restart
    let served := servedPaths whole.pages
    (∃ h, whole.harness = .ok h ∧ h.files = t.files dir ∧ h.position = served.length ∧
        served = h.files.take h.position) ∧
      whole.tree.contents logPath = .ok (Log.ofServed served).toByteArray ∧
      ((∀ p ∈ served, p.OnOneLine) → run = whole ∧ again = whole) ∧
      ((∃ p ∈ served, ¬ p.OnOneLine) →
        (run = whole ∨ Stopped run whole) ∧ Stopped again whole ∧ again.tree = run.tree) := by
  intro start run whole again served
  obtain ⟨hsteady, hposition⟩ := steady_open hopen hcorpus
  have hstart : Follows dir logPath h₀ start start := by
    refine ⟨rfl, hsteady, ?_, .inl rfl⟩
    rw [hposition]
    rfl
  obtain ⟨h, hfiles, hf⟩ := hstart.play ms hms
  have hserved : served = h.files.take h.position := hf.served_eq
  have hlisted : h₀.files = t.files dir := by
    have hfound := hsteady.corpus_eq
    rw [hcorpus] at hfound
    exact (FileTree.corpus?_eq_some.mp hfound).2.symm
  refine ⟨⟨h, hf.harness_eq, hfiles.trans hlisted, ?_, hserved⟩, ?_, fun hgood => ?_,
    fun hbroken => ?_⟩
  · rw [hserved, List.length_take, Nat.min_eq_left h.position_le]
  · rw [hserved]
    exact hf.steady.contents_eq
  · exact ⟨hf.eq_of_good hgood, hf.restart_of_good hgood⟩
  · exact ⟨hf.run_eq, hf.restart_of_broken hbroken⟩

/-- Two files, with the harness closed and opened again between them. -/
theorem play_restart_between :
    let dir : Path := .ofString "c"
    let logPath : Path := .ofString "log"
    let t : FileTree := ⟨.dir [99] (.file [97] 0 .empty (.file [98] 1 .empty .nil)) .nil, [], 2⟩
    ∃ h t', Harness.openAt dir logPath false t = (.ok h, t') ∧
      Run.play dir logPath [.page, .restart, .page] ⟨[], .ok h, t'⟩ =
        Run.play dir logPath [.page, .page] ⟨[], .ok h, t'⟩ := by
  intro dir logPath t
  have hopened : (Harness.openAt dir logPath false t).1.isOk = true := by cbv
  have hcorpus : (Harness.openAt dir logPath false t).2.corpus? dir = t.corpus? dir := by cbv
  have hfiles : t.files dir = [.ofString "c/a", .ofString "c/b"] := by cbv
  have hshownA : (Path.ofString "c/a").display.toList = ['c', '/', 'a'] := by cbv
  have hshownB : (Path.ofString "c/b").display.toList = ['c', '/', 'b'] := by cbv
  have hlines : ∀ p ∈ t.files dir, p.OnOneLine := by
    rw [hfiles]
    simp [Path.OnOneLine, hshownA, hshownB]
  cases hopen : Harness.openAt dir logPath false t with
  | mk opened t' =>
    rw [hopen] at hopened hcorpus
    cases opened with
    | error e => cases hopened
    | ok h =>
      refine ⟨h, t', rfl, ?_⟩
      have hnone : ∀ change, Move.meanwhile change ∈ [.page, .restart, .page] →
          LeavesAlone dir logPath change := by
        intro change hmem
        simp at hmem
      obtain ⟨⟨h', -, hlisted, -, hserved⟩, -, hgood, -⟩ :=
        play_eq_uninterrupted hopen hcorpus [.page, .restart, .page] hnone
      refine (hgood fun p hp => hlines p ?_).1
      rw [hserved, hlisted] at hp
      exact List.mem_of_mem_take hp

end Replay

end PageFuzz
