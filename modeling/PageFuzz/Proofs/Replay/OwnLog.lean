import PageFuzz.Proofs.Files.NewFile
import PageFuzz.Proofs.Replay.LastLine

/-!
# A log among the files of the corpus

The log of a harness may be below the directory that is replayed.  The files are listed before the
log is opened, so the run that makes the log does not list it, and all later runs do.  Here this is
followed through any number of runs: what each of them lists, and whether it can be gone on with.

* `Visit`, `visits`    runs of the harness, one after another;
* `InStep`             the log says what an open harness has served;
* `InStep.play`        so it is after any number of pages;
* `InStep.again_of_same`, `InStep.again_of_other`  opening again, where the list may be another;
* `Visited`            what is known of a run: `visited_first` makes the log, `Logged.visit` finds it;
* `logged_visits`      the log stays there;
* `again_after_visits` any history of runs, one more run, and opening again.
-/

namespace PageFuzz.Replay

/-! ## runs one after another -/

/-- One run of the harness: it is opened, asked for some pages, and closed. -/
structure Visit where
  resume : Bool
  calls : Nat

def Visit.run (dir logPath : Path) (v : Visit) (t : FileTree) : Run :=
  let opened := Harness.openAt dir logPath v.resume t
  Run.play dir logPath (List.replicate v.calls .page) ⟨[], opened.1, opened.2⟩

/-- the tree after some runs -/
def visits (dir logPath : Path) (vs : List Visit) (t : FileTree) : FileTree :=
  vs.foldl (fun t v => (v.run dir logPath t).tree) t

theorem play_pages_of_error {dir logPath : Path} {r : Run} {e : ReplayError}
    (h : r.harness = .error e) (n : Nat) :
    Run.play dir logPath (List.replicate n .page) r = r := by
  induction n with
  | zero => rfl
  | succ n ih =>
    have hstay : r.step dir logPath .page = r := by rw [Run.step, h]
    rw [List.replicate_succ, Run.play, List.foldl_cons, hstay]
    exact ih

namespace Log

theorem terminated_append_line (text : String) (p : Path) : Terminated (text ++ line p) := by
  right
  rw [line, String.toList_append, String.toList_append, ← List.append_assoc]
  exact List.getLast?_concat

/-- A file that is served is one more entry. -/
theorem entries_append_line {text : String} (hterm : Terminated text) {p : Path}
    (hp : entriesOf p = [p.display]) : entries (text ++ line p) = entries text ++ [p.display] := by
  have hline := entries_line p ""
  rw [String.append_empty, entries_empty, List.append_nil, hp] at hline
  rw [entries_append hterm, hline]

theorem matchFrom_eq_error {done : Nat} {files : List Path} {es : List String} {e : ReplayError}
    (h : matchFrom done files es = .error e) :
    ∃ line expected found, e = .logMismatch line expected found := by
  induction es generalizing done files with
  | nil => cases files <;> cases h
  | cons found es ih =>
    cases files with
    | nil =>
      cases h
      exact ⟨_, _, _, rfl⟩
    | cons p ps =>
      rw [matchFrom] at h
      split at h
      · exact ih h
      · cases h
        exact ⟨_, _, _, rfl⟩

end Log

/-! ## a log that is in step -/

/-- The directory lists `listed`, and the log is there and has ended its last line. -/
structure Logged (dir logPath : Path) (listed : List Path) (t : FileTree) : Prop where
  corpus_eq : t.corpus? dir = some listed
  log : ∃ base name mark text,
    t.fileSpot logPath = .ok (base, name, some (mark, text.toByteArray)) ∧ Log.Terminated text

/-- The log says which of its files `h` has served, in a directory that lists `listed`. -/
structure InStep (dir logPath : Path) (listed : List Path) (h : Harness) (t : FileTree) :
    Prop where
  corpus_eq : t.corpus? dir = some listed
  logPath_eq : h.logPath = logPath
  log : ∃ base name text, t.fileSpot logPath = .ok (base, name, some (h.log, text.toByteArray)) ∧
    Log.Terminated text ∧ Log.entries text = (h.files.take h.position).map Path.display

namespace InStep

section
variable {dir logPath : Path} {listed : List Path} {h : Harness} {t : FileTree}

theorem logged (hs : InStep dir logPath listed h t) : Logged dir logPath listed t := by
  obtain ⟨base, name, text, hspot, hterm, -⟩ := hs.log
  exact ⟨hs.corpus_eq, base, name, h.log, text, hspot, hterm⟩

theorem next (hs : InStep dir logPath listed h t)
    (hread : ∀ p ∈ h.files, Log.entriesOf p = [p.display]) :
    InStep dir logPath listed (h.next t).2.1 (h.next t).2.2 := by
  rcases next_cases h t with ⟨hsame, -⟩ | ⟨hlt, hnext, -⟩
  · rw [hsame]
    exact hs
  · obtain ⟨base, name, text, hspot, hterm, hentries⟩ := hs.log
    rw [hnext]
    refine ⟨?_, hs.logPath_eq, base, name, text ++ Log.line h.files[h.position], ?_,
      Log.terminated_append_line text _, ?_⟩
    · rw [FileTree.corpus?_update, hs.corpus_eq]
    · rw [String.toByteArray_append]
      exact FileTree.fileSpot_update _ hspot
    · show _ = (h.files.take (h.position + 1)).map Path.display
      rw [Log.entries_append_line hterm (hread _ (List.getElem_mem hlt)), hentries,
        ← List.take_append_getElem hlt, List.map_append, List.map_singleton]

/-- Pages keep the log in step, and are pages of files on the list. -/
theorem play {r : Run} (hs : InStep dir logPath listed h r.tree) (hr : r.harness = .ok h)
    (hread : ∀ p ∈ h.files, Log.entriesOf p = [p.display])
    (hpages : ∀ p ∈ servedPaths r.pages, p ∈ h.files) (n : Nat) :
    let r' := Run.play dir logPath (List.replicate n .page) r
    ∃ h', r'.harness = .ok h' ∧ h'.files = h.files ∧ InStep dir logPath listed h' r'.tree ∧
      ∀ p ∈ servedPaths r'.pages, p ∈ h.files := by
  induction n generalizing r h with
  | zero => exact ⟨h, hr, rfl, hs, hpages⟩
  | succ n ih =>
    have hfiles : (h.next r.tree).2.1.files = h.files := Harness.files_next h r.tree
    have hmore : ∀ p ∈ servedPaths (r.pages ++ [(h.next r.tree).1]), p ∈ h.files := by
      intro p hp
      rw [servedPaths_concat] at hp
      rcases List.mem_append.mp hp with hp | hp
      · exact hpages p hp
      · rcases next_cases h r.tree with ⟨-, hnone⟩ | ⟨hlt, -, hone⟩
        · rw [hnone] at hp
          cases hp
        · rw [hone, List.mem_singleton] at hp
          exact hp ▸ List.getElem_mem hlt
    rw [List.replicate_succ, Run.play, List.foldl_cons, Run.step_page hr]
    obtain ⟨h', hharness, hfiles', hs', hserved⟩ :=
      ih (r := ⟨r.pages ++ [(h.next r.tree).1], .ok (h.next r.tree).2.1, (h.next r.tree).2.2⟩)
        (hs.next hread) rfl (hfiles.symm ▸ hread) (hfiles.symm ▸ hmore)
    exact ⟨h', hharness, hfiles'.trans hfiles, hs', hfiles ▸ hserved⟩

/-! ### opening again -/

/-- If the files that were served are still the first of the list, the run goes on behind them, -/
theorem again_of_same (hs : InStep dir logPath listed h t)
    (hsame : (listed.take h.position).map Path.display =
      (h.files.take h.position).map Path.display) :
    ∃ h', Harness.openAt dir logPath true t = (.ok h', t) ∧ h'.files = listed ∧
      h'.position = h.position := by
  obtain ⟨base, name, text, hspot, -, hentries⟩ := hs.log
  obtain ⟨hdir, hfiles⟩ := FileTree.corpus?_eq_some.mp hs.corpus_eq
  have hle : h.position ≤ listed.length := by
    have hlength := congrArg List.length hsame
    have hposition := h.position_le
    rw [List.length_map, List.length_map, List.length_take, List.length_take] at hlength
    omega
  let h' : Harness := ⟨listed, h.position, logPath, h.log, hle⟩
  have hserved : Log.served listed text = .ok h.position :=
    Log.served_eq_ok_iff.mpr ⟨hle, hentries.trans hsame.symm⟩
  exact ⟨h', openAt_of_served (h := h') hdir hfiles rfl hspot hserved, rfl, rfl⟩

/-- and if they are not, that is a mismatch. -/
theorem again_of_other (hs : InStep dir logPath listed h t)
    (hother : (listed.take h.position).map Path.display ≠
      (h.files.take h.position).map Path.display) :
    ∃ line expected found,
      Harness.openAt dir logPath true t = (.error (.logMismatch line expected found), t) := by
  obtain ⟨base, name, text, hspot, -, hentries⟩ := hs.log
  obtain ⟨hdir, hfiles⟩ := FileTree.corpus?_eq_some.mp hs.corpus_eq
  cases hserved : Log.served listed text with
  | ok n =>
    obtain ⟨hn, hfound⟩ := Log.served_eq_ok_iff.mp hserved
    rw [hentries] at hfound
    -- as many files as were served are as many as the log has entries
    have hlength := congrArg List.length hfound
    rw [List.length_map, List.length_map, List.length_take, List.length_take,
      Nat.min_eq_left hn, Nat.min_eq_left h.position_le] at hlength
    subst hlength
    exact absurd hfound.symm hother
  | error e =>
    obtain ⟨line, expected, found, rfl⟩ := Log.matchFrom_eq_error hserved
    exact ⟨line, expected, found, openAt_of_refused hdir hfiles hspot hserved⟩

end

end InStep

/-! ## opening -/

section
variable {dir logPath : Path} {listed : List Path} {t t' : FileTree} {h : Harness}

/-- A harness that does not open leaves the tree as it is. -/
theorem tree_of_not_opened {resume : Bool} {e : ReplayError}
    (hopen : Harness.openAt dir logPath resume t = (.error e, t')) : t' = t := by
  have hlog : ∀ {files : List Path} {n : Nat} {hn : n ≤ files.length} {e : ReplayError}
      {t' : FileTree}, Harness.openLog files n hn logPath t = (.error e, t') → t' = t := by
    intro files n hn e t' h
    unfold Harness.openLog at h
    split at h
    · cases h
      rfl
    · cases h
  unfold Harness.openAt at hopen
  split at hopen
  · cases hopen
    rfl
  · dsimp only at hopen
    split at hopen
    · split at hopen
      · cases hopen
        rfl
      · exact hlog hopen
    · split at hopen
      · next hfailed =>
        cases hopen
        exact hlog hfailed
      · cases hopen

/-- A harness that opens on a log that has ended its last line, or makes its log, is in step. -/
theorem inStep_open {resume : Bool} (hopen : Harness.openAt dir logPath resume t = (.ok h, t'))
    (hended : ∀ text, t.readText logPath = .ok text → Log.Terminated text)
    (hcorpus : t'.corpus? dir = some listed) : InStep dir logPath listed h t' := by
  cases resume with
  | false =>
    obtain ⟨-, -, hposition, hpath, -⟩ := openAt_fresh hopen
    obtain ⟨base, name, log, hspot, hempty⟩ := fileSpot_openAt hopen
    obtain rfl := hempty rfl
    refine ⟨hcorpus, hpath, base, name, "", hspot, .inl rfl, ?_⟩
    rw [hposition]
    rfl
  | true =>
    obtain ⟨-, -, -, hpath, -⟩ := openAt_resumed hopen
    obtain ⟨base, name, text, hspot, hserved, hbefore⟩ := log_of_resumed hopen
    refine ⟨hcorpus, hpath, base, name, text, hspot, ?_, (Log.served_eq_ok_iff.mp hserved).2⟩
    rcases hbefore with ⟨-, htext⟩ | ⟨-, rfl⟩
    · exact hended text htext
    · exact .inl rfl

theorem files_of_opened {resume : Bool}
    (hopen : Harness.openAt dir logPath resume t = (.ok h, t')) : h.files = t.files dir := by
  cases resume with
  | false => exact (openAt_fresh hopen).2.1
  | true => exact (openAt_resumed hopen).2.1

/-- What the directory lists when the harness has opened its log. -/
theorem corpus?_of_opened {resume : Bool} {mark : Nat} {t₁ : FileTree}
    (hfile : t.openFile logPath = .ok (mark, t₁))
    (hopen : Harness.openAt dir logPath resume t = (.ok h, t')) :
    t'.corpus? dir = t₁.corpus? dir := by
  cases resume with
  | false =>
    obtain ⟨-, -, -, -, t₂, hfile₂, rfl⟩ := openAt_fresh hopen
    rw [hfile] at hfile₂
    cases hfile₂
    exact FileTree.corpus?_update t₁ _ _ dir
  | true =>
    obtain ⟨-, -, -, -, hfile₂⟩ := openAt_resumed hopen
    rw [hfile] at hfile₂
    cases hfile₂
    rfl

/-- A harness opens if its log can be opened and, where it is to go on, says where. -/
theorem openAt_of_openFile {n mark : Nat} {t₁ : FileTree} (resume : Bool)
    (hdir : t.isDir dir = true) (hfile : t.openFile logPath = .ok (mark, t₁))
    (hresume : resume = true → Harness.resumePoint (t.files dir) logPath t = .ok n) :
    ∃ h t', Harness.openAt dir logPath resume t = (.ok h, t') := by
  cases resume with
  | true =>
    obtain ⟨hn, hopen⟩ := openAt_of_resumePoint hdir (hresume rfl)
    rw [hopen, Harness.openLog, hfile]
    exact ⟨_, _, rfl⟩
  | false =>
    unfold Harness.openAt
    rw [hdir, if_neg (by decide)]
    dsimp only
    rw [if_neg Bool.false_ne_true, Harness.openLog, hfile]
    exact ⟨_, _, rfl⟩

/-! ## one run -/

/-- What is known of a run that listed `listed`, in a directory that lists `later` when it ends. -/
structure Visited (dir logPath : Path) (listed later : List Path) (v : Visit) (r : Run) :
    Prop where
  opens : v.resume = false → ∃ h, r.harness = .ok h
  logged : Logged dir logPath later r.tree
  mem_listed : ∀ p ∈ servedPaths r.pages, p ∈ listed
  inStep : ∀ h, r.harness = .ok h → h.files = listed ∧ InStep dir logPath later h r.tree

/-- Opening again after a run, which goes on if the directory still lists first what it served. -/
theorem Visited.again {later : List Path} {v : Visit} {r : Run}
    (hv : Visited dir logPath listed later v r) (hr : r.harness = .ok h) : h.files = listed ∧
      ((later.take h.position).map Path.display = (listed.take h.position).map Path.display →
        ∃ h', Harness.openAt dir logPath true r.tree = (.ok h', r.tree) ∧ h'.files = later ∧
          h'.position = h.position) ∧
      ((later.take h.position).map Path.display ≠ (listed.take h.position).map Path.display →
        ∃ line expected found, Harness.openAt dir logPath true r.tree =
          (.error (.logMismatch line expected found), r.tree)) := by
  obtain ⟨rfl, hs⟩ := hv.inStep h hr
  exact ⟨rfl, hs.again_of_same, hs.again_of_other⟩

/-- A run that opens is known to its end. -/
theorem visited_of_opened {v : Visit} {later : List Path}
    (hopen : Harness.openAt dir logPath v.resume t = (.ok h, t')) (hlisted : h.files = listed)
    (hs : InStep dir logPath later h t') (hread : ∀ p ∈ listed, Log.entriesOf p = [p.display]) :
    Visited dir logPath listed later v (v.run dir logPath t) := by
  subst hlisted
  have hrun : v.run dir logPath t =
      Run.play dir logPath (List.replicate v.calls .page) ⟨[], .ok h, t'⟩ := by
    rw [Visit.run, hopen]
  obtain ⟨h', hharness, hfiles, hs', hserved⟩ :=
    InStep.play (r := ⟨[], .ok h, t'⟩) hs rfl hread (fun p hp => absurd hp List.not_mem_nil) v.calls
  rw [hrun]
  refine ⟨fun _ => ⟨h', hharness⟩, hs'.logged, hserved, fun h₂ hh₂ => ?_⟩
  rw [hharness] at hh₂
  cases hh₂
  exact ⟨hfiles, hs'⟩

/-- A run on a log that is there finds it there, and leaves it there. -/
theorem Logged.visit (hl : Logged dir logPath listed t)
    (hread : ∀ p ∈ listed, Log.entriesOf p = [p.display]) (v : Visit) :
    Visited dir logPath listed listed v (v.run dir logPath t) := by
  obtain ⟨base, name, mark, text, hspot, hterm⟩ := hl.log
  have hended : ∀ text', t.readText logPath = .ok text' → Log.Terminated text' := by
    intro text' htext
    rw [readText_of_fileSpot hspot] at htext
    exact Except.ok.inj htext ▸ hterm
  cases hopen : Harness.openAt dir logPath v.resume t with
  | mk opened t' =>
    cases opened with
    | error e =>
      have hrun : v.run dir logPath t = ⟨[], .error e, t⟩ := by
        rw [Visit.run, hopen, tree_of_not_opened hopen]
        exact play_pages_of_error rfl v.calls
      rw [hrun]
      refine ⟨fun hfresh => ?_, hl, fun p hp => absurd hp List.not_mem_nil, fun h hh => by cases hh⟩
      obtain ⟨hdir, -⟩ := FileTree.corpus?_eq_some.mp hl.corpus_eq
      obtain ⟨h, t₂, hopened⟩ := openAt_of_openFile (n := 0) v.resume hdir
        (openFile_of_fileSpot hspot) fun hresume => by
          rw [hfresh] at hresume
          cases hresume
      rw [hopen] at hopened
      cases hopened
    | ok h =>
      have hcorpus : t'.corpus? dir = some listed :=
        (corpus?_of_opened (openFile_of_fileSpot hspot) hopen).trans hl.corpus_eq
      have hfiles : h.files = listed :=
        (files_of_opened hopen).trans (FileTree.corpus?_eq_some.mp hl.corpus_eq).2
      exact visited_of_opened hopen hfiles (inStep_open hopen hended hcorpus) hread

/-- The run that makes the log lists the directory without it. -/
theorem visited_first {base : List Name} {name : Name} {mark : Nat} {t₁ : FileTree}
    {later : List Path} (hdir : t.isDir dir = true)
    (hspot : t.fileSpot logPath = .ok (base, name, none))
    (hfile : t.openFile logPath = .ok (mark, t₁)) (hlater : t₁.corpus? dir = some later)
    (hread : ∀ p ∈ t.files dir, Log.entriesOf p = [p.display]) (v : Visit) :
    Visited dir logPath (t.files dir) later v (v.run dir logPath t) := by
  have hnone : t.readText logPath = .error .notFound := readText_of_free hspot
  have hstart : Harness.resumePoint (t.files dir) logPath t = .ok 0 := by
    rw [Harness.resumePoint, hnone]
  obtain ⟨h, t', hopen⟩ := openAt_of_openFile v.resume hdir hfile fun _ => hstart
  have hended : ∀ text, t.readText logPath = .ok text → Log.Terminated text := by
    intro text htext
    rw [hnone] at htext
    cases htext
  have hs := inStep_open hopen hended ((corpus?_of_opened hfile hopen).trans hlater)
  exact visited_of_opened hopen (files_of_opened hopen) hs hread

theorem logged_visits (hl : Logged dir logPath listed t)
    (hread : ∀ p ∈ listed, Log.entriesOf p = [p.display]) (vs : List Visit) :
    Logged dir logPath listed (visits dir logPath vs t) := by
  induction vs generalizing t with
  | nil => exact hl
  | cons v vs ih => exact ih (hl.visit hread v).logged

/-! ## the list before the first run and after it -/

/-- Opening a log that is there changes no list, -/
theorem files_of_log {base : List Name} {name : Name} {file : Nat × ByteArray}
    (hspot : t.fileSpot logPath = .ok (base, name, some file)) (resume : Bool) :
    (Harness.openAt dir logPath resume t).2.files dir = t.files dir := by
  cases hopen : Harness.openAt dir logPath resume t with
  | mk opened t' =>
    cases opened with
    | error e => rw [tree_of_not_opened hopen]
    | ok h =>
      have hfile := openFile_of_fileSpot hspot
      have hdir : t.isDir dir = true := by
        cases resume with
        | false => exact (openAt_fresh hopen).1
        | true => exact (openAt_resumed hopen).1
      have hcorpus := corpus?_of_opened hfile hopen
      rw [FileTree.corpus?_eq_some.mpr ⟨hdir, rfl⟩] at hcorpus
      exact (FileTree.corpus?_eq_some.mp hcorpus).2

/-- and making it adds the paths that lead to it. -/
theorem files_of_new_log {base : List Name} {name : Name} (hdir : t.isDir dir = true)
    (hspot : t.fileSpot logPath = .ok (base, name, none))
    (hhere : ∀ n ∈ t.here, Path.IsFileName n) :
    let later := (Harness.openAt dir logPath false t).2.files dir
    (∃ mark t₁, t.openFile logPath = .ok (mark, t₁) ∧ t₁.corpus? dir = some later) ∧
      later.filter (fun p => t.place .follow p ≠ t.place .follow logPath) = t.files dir := by
  intro later
  obtain ⟨t₁, hfile, hnew, -⟩ := FileTree.newFile_openFile hspot
  have hcorpus₁ : t₁.corpus? dir = some (t₁.files dir) :=
    FileTree.corpus?_eq_some.mpr ⟨hnew.isDir hdir, rfl⟩
  obtain ⟨h, t', hopen⟩ := openAt_of_openFile (n := 0) false hdir hfile nofun
  have hcorpus := corpus?_of_opened hfile hopen
  have hlater : later = t₁.files dir := by
    show (Harness.openAt dir logPath false t).2.files dir = _
    rw [hcorpus₁] at hcorpus
    rw [hopen]
    exact (FileTree.corpus?_eq_some.mp hcorpus).2
  refine ⟨⟨t.nextMark, t₁, hfile, hlater ▸ hcorpus₁⟩, ?_⟩
  have hplace := FileTree.place_of_fileSpot hspot
  have hlisted := hnew.files_eq hdir (FileTree.isStep_of_place hhere hplace)
  rw [hlater, hplace]
  exact hlisted

/-- What is known of one more run after any others. -/
theorem visited_after_visits {base : List Name} {name : Name} {found : Option (Nat × ByteArray)}
    (hdir : t.isDir dir = true) (hspot : t.fileSpot logPath = .ok (base, name, found))
    (hended : ∀ file, found = some file →
      ∃ text, file.2 = text.toByteArray ∧ Log.Terminated text)
    (hhere : ∀ n ∈ t.here, Path.IsFileName n)
    (hlines : ∀ p ∈ (Harness.openAt dir logPath false t).2.files dir, p.OnOneLine)
    (vs : List Visit) (v : Visit) :
    let later := (Harness.openAt dir logPath false t).2.files dir
    let listed := if vs.isEmpty then t.files dir else later
    (visits dir logPath vs t).files dir = listed ∧
      Visited dir logPath listed later v (v.run dir logPath (visits dir logPath vs t)) := by
  intro later listed
  have hread : ∀ p ∈ later, Log.entriesOf p = [p.display] := fun p hp =>
    Log.entriesOf_of_onOneLine (hlines p hp) (FileTree.slash_mem_of_mem_files hp)
  cases found with
  | none =>
    obtain ⟨⟨mark, t₁, hfile, hlater⟩, hlisted⟩ := files_of_new_log hdir hspot hhere
    have hreadFirst : ∀ p ∈ t.files dir, Log.entriesOf p = [p.display] := by
      intro p hp
      rw [← hlisted] at hp
      exact hread p (List.mem_filter.mp hp).1
    have hfirst := visited_first hdir hspot hfile hlater hreadFirst
    cases vs with
    | nil => exact ⟨rfl, hfirst v⟩
    | cons v₀ vs =>
      -- the first run has made the log, and the others find it
      have hl := logged_visits (hfirst v₀).logged hread vs
      exact ⟨(FileTree.corpus?_eq_some.mp hl.corpus_eq).2, hl.visit hread v⟩
  | some file =>
    obtain ⟨mark, content⟩ := file
    obtain ⟨text, rfl, hterm⟩ := hended _ rfl
    have hsame : later = t.files dir := files_of_log hspot false
    have hlisted : listed = later := by
      show (if vs.isEmpty then t.files dir else later) = later
      rw [← hsame, ite_self]
    have hl : Logged dir logPath later t :=
      ⟨FileTree.corpus?_eq_some.mpr ⟨hdir, hsame.symm⟩, base, name, mark, text, hspot, hterm⟩
    have hl' := logged_visits hl hread vs
    rw [hlisted]
    exact ⟨(FileTree.corpus?_eq_some.mp hl'.corpus_eq).2, hl'.visit hread v⟩

end

/-- **A log among the files of the corpus.**  The log is not there yet, or it is there and has
ended its last line; and it may be below the directory that is replayed.  After any number of runs,
fresh and resumed, the directory lists the same files: if the log was there, those of the start, and
otherwise these and the paths that lead to the log.  So the first run that makes a log does not
serve it, and every later run serves the files of one list, in which the log may be.  A run is gone
on with at its position, if the files that it has served are the first of that list as they are
shown; so it is with every run but the first.  Otherwise opening again is a mismatch. -/
theorem again_after_visits {dir logPath : Path} {t : FileTree} {base : List Name} {name : Name}
    {found : Option (Nat × ByteArray)} (hdir : t.isDir dir = true)
    (hspot : t.fileSpot logPath = .ok (base, name, found))
    (hended : ∀ file, found = some file →
      ∃ text, file.2 = text.toByteArray ∧ Log.Terminated text)
    (hhere : ∀ n ∈ t.here, Path.IsFileName n)
    (hlines : ∀ p ∈ (Harness.openAt dir logPath false t).2.files dir, p.OnOneLine) :
    let first := t.files dir
    let later := (Harness.openAt dir logPath false t).2.files dir
    (found = none →
        later.filter (fun p => t.place .follow p ≠ t.place .follow logPath) = first) ∧
      (found ≠ none → later = first) ∧
      ∀ (vs : List Visit) (v : Visit),
        let now := visits dir logPath vs t
        let listed := if vs.isEmpty then first else later
        let run := v.run dir logPath now
        let again := Harness.openAt dir logPath true run.tree
        now.files dir = listed ∧ (∀ p ∈ servedPaths run.pages, p ∈ listed) ∧
          (v.resume = false → ∃ h, run.harness = .ok h) ∧
          ∀ h, run.harness = .ok h → h.files = listed ∧
            ((later.take h.position).map Path.display =
                (listed.take h.position).map Path.display →
              ∃ h', again = (.ok h', run.tree) ∧ h'.files = later ∧ h'.position = h.position) ∧
            ((later.take h.position).map Path.display ≠
                (listed.take h.position).map Path.display →
              ∃ line expected found, again = (.error (.logMismatch line expected found),
                run.tree)) := by
  intro first later
  refine ⟨fun hnone => ?_, fun hsome => ?_, fun vs v => ?_⟩
  · subst hnone
    exact (files_of_new_log hdir hspot hhere).2
  · obtain ⟨file, rfl⟩ := Option.ne_none_iff_exists'.mp hsome
    exact files_of_log hspot false
  · obtain ⟨hnow, hv⟩ := visited_after_visits hdir hspot hended hhere hlines vs v
    exact ⟨hnow, hv.mem_listed, hv.opens, fun h hh => hv.again hh⟩

/-- A run that finds the log is gone on with, and it is the log that it has served. -/
theorem again_after_second_run :
    let dir : Path := ⟨[99]⟩
    let logPath : Path := ⟨[99, 47, 97]⟩
    let t : FileTree := ⟨.dir [99] (.file [98] 0 ⟨#[66]⟩ .nil) .nil, [], 1⟩
    let fresh : Visit := ⟨false, 1⟩
    let run := fresh.run dir logPath (visits dir logPath [fresh] t)
    servedPaths run.pages = [logPath] ∧
      ∃ h, Harness.openAt dir logPath true run.tree = (.ok h, run.tree) ∧
        h.files = [logPath, ⟨[99, 47, 98]⟩] ∧ h.position = 1 := by
  intro dir logPath t fresh run
  have hdir : t.isDir dir = true := by cbv
  have hspot : t.fileSpot logPath = .ok ([[99]], [97], none) := by cbv
  have hlater : (Harness.openAt dir logPath false t).2.files dir =
      [logPath, ⟨[99, 47, 98]⟩] := by cbv
  have hlines : ∀ p ∈ (Harness.openAt dir logPath false t).2.files dir, p.OnOneLine := by
    intro p hp
    rw [hlater] at hp
    apply Path.onOneLine_of_printable
    rcases List.mem_pair.mp hp with rfl | rfl <;> simp [logPath]
  obtain ⟨-, -, hruns⟩ := again_after_visits hdir hspot (fun file hfile => by cases hfile)
    (fun n hn => absurd hn List.not_mem_nil) hlines
  obtain ⟨-, -, hopens, hagain⟩ := hruns [fresh] fresh
  obtain ⟨h, hharness⟩ := hopens rfl
  obtain ⟨-, hgoes, -⟩ := hagain h hharness
  obtain ⟨h', hopen, hfiles, hposition⟩ := hgoes rfl
  have hone : (fresh.run dir logPath (visits dir logPath [fresh] t)).harness.map (·.position) =
      .ok 1 := by cbv
  rw [hharness] at hone
  refine ⟨?_, h', hopen, hfiles.trans hlater, hposition.trans (Except.ok.inj hone)⟩
  show servedPaths (fresh.run dir logPath (visits dir logPath [fresh] t)).pages = [logPath]
  cbv

/-- The first run makes its log among the files: it cannot be gone on with, and the next serves the
log. -/
theorem openAt_of_log_in_corpus :
    let dir : Path := ⟨[99]⟩
    let logPath : Path := ⟨[99, 47, 97]⟩
    let t : FileTree := ⟨.dir [99] (.file [98] 0 ⟨#[66]⟩ .nil) .nil, [], 1⟩
    let fresh : Visit := ⟨false, 1⟩
    let run := fresh.run dir logPath t
    ∃ h, run.harness = .ok h ∧ h.files = [⟨[99, 47, 98]⟩] ∧ h.position = 1 ∧
      Harness.openAt dir logPath true run.tree =
        (.error (.logMismatch 1 "c/a" "c/b"), run.tree) ∧
      servedPaths (fresh.run dir logPath run.tree).pages = [logPath] := by
  intro dir logPath t fresh run
  -- the tree that the run leaves
  have htree : run.tree = ⟨.dir [99] (.file [98] 0 ⟨#[66]⟩
      (.file [97] 1 "c/b\n".toByteArray .nil)) .nil, [], 2⟩ := by
    show (fresh.run dir logPath t).tree = _
    cbv
  have hdir : run.tree.isDir dir = true := by
    rw [htree]
    cbv
  have hfiles : run.tree.files dir = [logPath, ⟨[99, 47, 98]⟩] := by
    rw [htree]
    cbv
  have hspot : run.tree.fileSpot logPath = .ok ([[99]], [97], some (1, "c/b\n".toByteArray)) := by
    rw [htree]
    cbv
  have hrefused : Log.served [logPath, ⟨[99, 47, 98]⟩] "c/b\n" =
      .error (.logMismatch 1 "c/a" "c/b") := by cbv
  refine ⟨⟨[⟨[99, 47, 98]⟩], 1, logPath, 1, by decide⟩, ?_, rfl, rfl,
    openAt_of_refused hdir hfiles hspot hrefused, ?_⟩
  · show (fresh.run dir logPath t).harness = _
    cbv
  · rw [htree]
    cbv

end PageFuzz.Replay
