import Mathlib
import PageFuzz.Proofs.Replay.Resume

/-!
# A replay while files come and go

The harness keeps two records of what it has served: its position in the list of files, and the
lines of its log.  They stay in step whatever happens to the files, as long as the log is left
alone.  A file that cannot be read when its turn comes stays the next one.

* `Move.SparesLog`, `Run.Undisturbed`  calls of the harness while others change the files;
* `Progress`                           position, log and pages are in step;
* `Progress.page`, `Progress.meanwhile`  they stay in step in each move;
* `Progress.play`                      and so in all of them;
* `play_progress`                      what is known of a replay at any time, and of its next call.
-/

namespace PageFuzz.Replay

/-- The harness stays open, and at the path of its log stays the same file with the same bytes. -/
def Move.SparesLog (logPath : Path) (t : FileTree) : Move → Prop
  | .page => True
  | .restart => False
  | .meanwhile change =>
    ((change t).fileSpot logPath).map (·.2.2) = (t.fileSpot logPath).map (·.2.2)

/-- Each move spares the log in the tree that it finds. -/
def Run.Undisturbed (dir logPath : Path) (r : Run) : List Move → Prop
  | [] => True
  | m :: ms => m.SparesLog logPath r.tree ∧ (r.step dir logPath m).Undisturbed dir logPath ms

/-- A harness that was opened as `h₀` on a log `log₀` has become `h`. -/
structure Progress (logPath : Path) (h₀ : Harness) (log₀ : ByteArray) (h : Harness) (r : Run) :
    Prop where
  harness_eq : r.harness = .ok h
  files_eq : h.files = h₀.files
  logPath_eq : h.logPath = h₀.logPath
  position_ge : h₀.position ≤ h.position
  served_eq : servedPaths r.pages = (h.files.take h.position).drop h₀.position
  log_eq : ∃ base name, r.tree.fileSpot logPath =
    .ok (base, name, some (h.log, log₀ ++ (Log.ofServed (servedPaths r.pages)).toByteArray))

namespace Progress

section
variable {logPath : Path} {h₀ h : Harness} {log₀ : ByteArray} {r : Run}

theorem contents_eq (hp : Progress logPath h₀ log₀ h r) : r.tree.contents logPath =
    .ok (log₀ ++ (Log.ofServed (servedPaths r.pages)).toByteArray) := by
  obtain ⟨base, name, hspot⟩ := hp.log_eq
  exact FileTree.contents_of_fileSpot hspot

theorem mem_files (hp : Progress logPath h₀ log₀ h r) {p : Path} (hmem : p ∈ servedPaths r.pages) :
    p ∈ h₀.files := by
  rw [hp.served_eq, hp.files_eq] at hmem
  exact List.mem_of_mem_take (List.mem_of_mem_drop hmem)

theorem position_eq (hp : Progress logPath h₀ log₀ h r) :
    h.position = h₀.position + (servedPaths r.pages).length := by
  have hge := hp.position_ge
  have hle := h.position_le
  rw [hp.served_eq, List.length_drop, List.length_take]
  omega

theorem start {t : FileTree} {base : List Name} {name : Name}
    (hspot : t.fileSpot logPath = .ok (base, name, some (h₀.log, log₀))) :
    Progress logPath h₀ log₀ h₀ ⟨[], .ok h₀, t⟩ where
  harness_eq := rfl
  files_eq := rfl
  logPath_eq := rfl
  position_ge := Nat.le_refl _
  served_eq := by
    have hnone : (h₀.files.take h₀.position).drop h₀.position = [] :=
      List.drop_eq_nil_of_le (List.length_take_le _ _)
    rw [hnone]
    rfl
  log_eq := by
    refine ⟨base, name, ?_⟩
    have hsame : log₀ ++ (Log.ofServed (servedPaths [])).toByteArray = log₀ :=
      ByteArray.append_empty
    rw [hsame]
    exact hspot

theorem page {dir : Path} (hp : Progress logPath h₀ log₀ h r) :
    Progress logPath h₀ log₀ (h.next r.tree).2.1 (r.step dir logPath .page) := by
  obtain ⟨base, name, hspot⟩ := hp.log_eq
  rw [Run.step_page hp.harness_eq]
  have hserved : servedPaths (r.pages ++ [(h.next r.tree).1]) =
      servedPaths r.pages ++ servedPaths [(h.next r.tree).1] := servedPaths_concat _ _
  -- a call that serves a file adds it to both records, and any other changes neither
  rcases next_cases h r.tree with ⟨hsame, hnone⟩ | ⟨hlt, hnext, hone⟩
  · rw [hnone, List.append_nil] at hserved
    rw [hsame]
    refine ⟨rfl, hp.files_eq, hp.logPath_eq, hp.position_ge, hserved.trans hp.served_eq,
      base, name, ?_⟩
    show r.tree.fileSpot logPath = _
    rw [hserved, hspot]
  · rw [hone] at hserved
    rw [hnext]
    refine ⟨rfl, hp.files_eq, hp.logPath_eq, Nat.le_succ_of_le hp.position_ge, ?_, base, name, ?_⟩
    · have hprior : h₀.position ≤ (h.files.take h.position).length := by
        rw [List.length_take, Nat.min_eq_left h.position_le]
        exact hp.position_ge
      show servedPaths _ = (h.files.take (h.position + 1)).drop h₀.position
      rw [hserved, hp.served_eq, ← List.take_append_getElem hlt,
        List.drop_append_of_le_length hprior]
    · have hupdate := FileTree.fileSpot_update
        (· ++ (Log.line h.files[h.position]).toByteArray) hspot
      rw [hserved, Log.ofServed_concat, String.toByteArray_append, ← ByteArray.append_assoc]
      exact hupdate

theorem meanwhile {dir : Path} {change : FileTree → FileTree} (hp : Progress logPath h₀ log₀ h r)
    (hchange : Move.SparesLog logPath r.tree (.meanwhile change)) :
    Progress logPath h₀ log₀ h (r.step dir logPath (.meanwhile change)) := by
  obtain ⟨base, name, hspot⟩ := hp.log_eq
  refine ⟨hp.harness_eq, hp.files_eq, hp.logPath_eq, hp.position_ge, hp.served_eq, ?_⟩
  have hsame : ((change r.tree).fileSpot logPath).map (·.2.2) =
      .ok (some (h.log, log₀ ++ (Log.ofServed (servedPaths r.pages)).toByteArray)) := by
    rw [hchange, hspot]
    rfl
  show ∃ base name, (change r.tree).fileSpot logPath = _
  cases hafter : (change r.tree).fileSpot logPath with
  | error cause =>
    rw [hafter] at hsame
    cases hsame
  | ok spot =>
    obtain ⟨base', name', found⟩ := spot
    rw [hafter] at hsame
    cases hsame
    exact ⟨base', name', rfl⟩

theorem play {dir : Path} {ms : List Move} (hp : Progress logPath h₀ log₀ h r)
    (hms : r.Undisturbed dir logPath ms) :
    ∃ h', Progress logPath h₀ log₀ h' (r.play dir logPath ms) := by
  induction ms generalizing r h with
  | nil => exact ⟨h, hp⟩
  | cons m ms ih =>
    obtain ⟨hm, hms⟩ := hms
    cases m with
    | page => exact ih hp.page hms
    | restart => exact hm.elim
    | meanwhile change => exact ih (hp.meanwhile hm) hms

end

end Progress

/-! ## one call -/

section
variable {h : Harness} {t : FileTree} {path : Path}

theorem position_eq_length_iff : h.position = h.files.length ↔ h.files[h.position]? = none := by
  have := h.position_le
  rw [List.getElem?_eq_none_iff]
  omega

theorem next_of_end (hend : h.position = h.files.length) : h.next t = (.ok .completed, h, t) := by
  have hnone : h.remaining = 0 := by
    unfold Harness.remaining
    omega
  exact Harness.next_of_remaining_eq_zero t hnone

theorem next_of_unreadable {cause : IoCause} (hfile : h.files[h.position]? = some path)
    (hread : t.contents path = .error cause) : h.next t = (.error (.io path cause), h, t) := by
  obtain ⟨hlt, rfl⟩ := List.getElem?_eq_some_iff.mp hfile
  unfold Harness.next
  rw [dif_pos hlt]
  dsimp only
  rw [hread]

theorem next_of_readable {content : ByteArray} (hfile : h.files[h.position]? = some path)
    (hread : t.contents path = .ok content) :
    ∃ h', h.next t = (.ok (.document path (refreshHeader.toByteArray ++ content)), h',
        t.update h.log (· ++ (Log.line path).toByteArray)) ∧
      h'.files = h.files ∧ h'.position = h.position + 1 := by
  obtain ⟨hlt, rfl⟩ := List.getElem?_eq_some_iff.mp hfile
  refine ⟨{ h with position := h.position + 1, position_le := hlt }, ?_, rfl, rfl⟩
  unfold Harness.next
  rw [dif_pos hlt]
  dsimp only
  rw [hread]

theorem next_eq_completed_iff :
    (h.next t).1 = .ok .completed ↔ h.position = h.files.length := by
  refine ⟨fun hdone => ?_, fun hend => by rw [next_of_end hend]⟩
  rw [position_eq_length_iff]
  cases hfile : h.files[h.position]? with
  | none => rfl
  | some path =>
    cases hread : t.contents path with
    | error cause =>
      rw [next_of_unreadable hfile hread] at hdone
      cases hdone
    | ok content =>
      obtain ⟨h', hnext, -⟩ := next_of_readable hfile hread
      rw [hnext] at hdone
      cases hdone

end

/-! ## a whole replay -/

/-- **A replay while files come and go.**  A harness is opened, afresh or on an earlier log; then
pages are asked for while others do to the files what they like, and nobody else touches the log.
At any time the list of files is as it was, the position is between its start and the end of the
list, the files served are those of the list from the start to the position, and the log is as it
was with their lines added.  The next call then tells the end, if and only if that is reached; or
it meets a file that cannot be read, and changes nothing but that this is told; or it serves the
file at the position as it is now, and goes on to the next position. -/
theorem play_progress {dir logPath : Path} {resume : Bool} {t t' : FileTree} {h₀ : Harness}
    (hopen : Harness.openAt dir logPath resume t = (.ok h₀, t')) :
    ∃ log₀, t'.contents logPath = .ok log₀ ∧
      ∀ ms, Run.Undisturbed dir logPath ⟨[], .ok h₀, t'⟩ ms →
        let r := Run.play dir logPath ms ⟨[], .ok h₀, t'⟩
        let call := r.step dir logPath .page
        ∃ h, r.harness = .ok h ∧ h.files = h₀.files ∧
          h₀.position ≤ h.position ∧ h.position ≤ h.files.length ∧
          servedPaths r.pages = (h₀.files.take h.position).drop h₀.position ∧
          r.tree.contents logPath =
            .ok (log₀ ++ (Log.ofServed (servedPaths r.pages)).toByteArray) ∧
          (call.pages = r.pages ++ [.ok .completed] ↔ h.position = h₀.files.length) ∧
          (h.position = h₀.files.length →
            call = { r with pages := r.pages ++ [.ok .completed] }) ∧
          (∀ path cause, h₀.files[h.position]? = some path →
            r.tree.contents path = .error cause →
              call = { r with pages := r.pages ++ [.error (.io path cause)] }) ∧
          ∀ path content, h₀.files[h.position]? = some path →
            r.tree.contents path = .ok content →
              call.pages = r.pages ++
                [.ok (.document path (refreshHeader.toByteArray ++ content))] ∧
              ∃ h', call.harness = .ok h' ∧ h'.files = h₀.files ∧
                h'.position = h.position + 1 := by
  obtain ⟨base, name, log₀, hspot, -⟩ := fileSpot_openAt hopen
  refine ⟨log₀, FileTree.contents_of_fileSpot hspot, fun ms hms => ?_⟩
  obtain ⟨h, hp⟩ := (Progress.start hspot).play hms
  intro r call
  have hcall : call =
      ⟨r.pages ++ [(h.next r.tree).1], .ok (h.next r.tree).2.1, (h.next r.tree).2.2⟩ :=
    Run.step_page hp.harness_eq
  have hstay : ∀ answer, h.next r.tree = (answer, h, r.tree) →
      call = { r with pages := r.pages ++ [answer] } := by
    intro answer hnext
    have hharness : r.harness = .ok h := hp.harness_eq
    rw [hcall, hnext, ← hharness]
  have hserved := hp.served_eq
  have hfiles := hp.files_eq
  rw [hfiles] at hserved
  refine ⟨h, hp.harness_eq, hfiles, hp.position_ge, h.position_le, hserved, hp.contents_eq, ?_⟩
  rw [← hfiles]
  refine ⟨?_, fun hend => hstay _ (next_of_end hend),
    fun path cause hfile hread => hstay _ (next_of_unreadable hfile hread),
    fun path content hfile hread => ?_⟩
  · rw [hcall]
    simpa using next_eq_completed_iff (t := r.tree)
  · obtain ⟨h', hnext, hfiles', hposition⟩ := next_of_readable hfile hread
    rw [hcall, hnext]
    exact ⟨rfl, h', rfl, hfiles', hposition⟩

/-- The second of two files is gone when its turn comes, and is served when it is there again. -/
theorem play_file_gone_and_back :
    let dir : Path := ⟨[99]⟩
    let logPath : Path := ⟨[108]⟩
    let a : Path := ⟨[99, 47, 97]⟩
    let b : Path := ⟨[99, 47, 98]⟩
    let corpus : Folder := .file [97] 0 .empty (.file [98] 1 .empty .nil)
    let gone : Move := .meanwhile (·.erase [[99]] [98])
    let back : Move := .meanwhile (·.put [[99]] [98] (.file 3 .empty))
    ∃ h t', Harness.openAt dir logPath false ⟨.dir [99] corpus .nil, [], 2⟩ = (.ok h, t') ∧
      servedPaths (Run.play dir logPath [.page, gone, .page, back, .page] ⟨[], .ok h, t'⟩).pages =
        [a, b] := by
  intro dir logPath a b corpus gone back
  let h : Harness := ⟨[a, b], 0, logPath, 2, Nat.zero_le _⟩
  let t' : FileTree := ⟨.dir [99] corpus (.file [108] 2 .empty .nil), [], 3⟩
  have hopen : Harness.openAt dir logPath false ⟨.dir [99] corpus .nil, [], 2⟩ = (.ok h, t') := by
    cbv
  have hquiet : Run.Undisturbed dir logPath ⟨[], .ok h, t'⟩ [.page, gone, .page, back, .page] := by
    refine ⟨trivial, ?_, trivial, ?_, trivial, trivial⟩
    · show Except.map _ _ = Except.map _ _
      cbv
    · show Except.map _ _ = Except.map _ _
      cbv
  obtain ⟨log₀, -, hplay⟩ := play_progress hopen
  obtain ⟨h', hharness, -, -, -, hserved, -⟩ := hplay _ hquiet
  have hposition : (Run.play dir logPath [.page, gone, .page, back, .page]
      ⟨[], .ok h, t'⟩).harness.map (·.position) = .ok 2 := by cbv
  rw [hharness] at hposition
  have htwo : h'.position = 2 := Except.ok.inj hposition
  rw [htwo] at hserved
  exact ⟨h, t', hopen, hserved⟩

end PageFuzz.Replay
