import Mathlib.Tactic.Common
import PageFuzz.Proofs.Files.Contents
import PageFuzz.Replay.Harness

/-!
# Opening a harness

What has been checked and done when a harness is open, and when one opens.

* `openAt_fresh`, `openAt_resumed`   what is known of a harness that has been opened;
* `fileSpot_openAt`, `log_of_resumed`  its log;
* `openAt_of_served`                 a harness whose files, position and log are found again is
                                     opened again;
* `openAt_of_refused`                a log that is refused leaves the tree as it is.
-/

namespace PageFuzz.Replay

theorem bytes_of_fromUTF8? {bytes : ByteArray} {text : String}
    (h : String.fromUTF8? bytes = some text) : bytes = text.toByteArray := by
  unfold String.fromUTF8? at h
  split at h
  · cases h
    rfl
  · cases h

section
variable {dir logPath : Path} {h : Harness} {t t' : FileTree}

theorem openLog_eq_ok {files : List Path} {n : Nat} {hn : n ≤ files.length}
    (hopen : Harness.openLog files n hn logPath t = (.ok h, t')) :
    h.files = files ∧ h.position = n ∧ h.logPath = logPath ∧
      t.openFile logPath = .ok (h.log, t') := by
  unfold Harness.openLog at hopen
  split at hopen
  · cases hopen
  · next mark t₁ hfile =>
    cases hopen
    exact ⟨rfl, rfl, rfl, hfile⟩

theorem openAt_fresh (hopen : Harness.openAt dir logPath false t = (.ok h, t')) :
    t.isDir dir = true ∧ h.files = t.files dir ∧ h.position = 0 ∧ h.logPath = logPath ∧
      ∃ t₁, t.openFile logPath = .ok (h.log, t₁) ∧ t' = t₁.update h.log fun _ => .empty := by
  unfold Harness.openAt at hopen
  split at hopen
  · cases hopen
  · next hdir =>
    rw [Bool.not_eq_true', Bool.not_eq_false] at hdir
    dsimp only at hopen
    rw [if_neg Bool.false_ne_true] at hopen
    split at hopen
    · cases hopen
    · next h₁ t₁ hlog =>
      obtain ⟨hfiles, hposition, hpath, hfile⟩ := openLog_eq_ok hlog
      cases hopen
      exact ⟨hdir, hfiles, hposition, hpath, t₁, hfile, rfl⟩

theorem openAt_resumed (hopen : Harness.openAt dir logPath true t = (.ok h, t')) :
    t.isDir dir = true ∧ h.files = t.files dir ∧
      Harness.resumePoint (t.files dir) logPath t = .ok h.position ∧ h.logPath = logPath ∧
      t.openFile logPath = .ok (h.log, t') := by
  unfold Harness.openAt at hopen
  split at hopen
  · cases hopen
  · next hdir =>
    rw [Bool.not_eq_true', Bool.not_eq_false] at hdir
    dsimp only at hopen
    rw [if_pos rfl] at hopen
    split at hopen
    · cases hopen
    · next n hresume =>
      obtain ⟨hfiles, hposition, hpath, hfile⟩ := openLog_eq_ok hopen
      exact ⟨hdir, hfiles, hposition ▸ hresume, hpath, hfile⟩

theorem fileSpot_openAt {resume : Bool}
    (hopen : Harness.openAt dir logPath resume t = (.ok h, t')) :
    ∃ base name log, t'.fileSpot logPath = .ok (base, name, some (h.log, log)) ∧
      (resume = false → log = .empty) := by
  cases resume with
  | false =>
    obtain ⟨-, -, -, -, t₁, hfile, rfl⟩ := openAt_fresh hopen
    obtain ⟨base, name, log, hspot, -⟩ := FileTree.fileSpot_openFile hfile
    exact ⟨base, name, .empty, FileTree.fileSpot_update _ hspot, fun _ => rfl⟩
  | true =>
    obtain ⟨-, -, -, -, hfile⟩ := openAt_resumed hopen
    obtain ⟨base, name, log, hspot, -⟩ := FileTree.fileSpot_openFile hfile
    exact ⟨base, name, log, hspot, nofun⟩

/-- A resumed harness has a log that is a text: the one that it was resumed from, or a new one. -/
theorem log_of_resumed (hopen : Harness.openAt dir logPath true t = (.ok h, t')) :
    ∃ base name text, t'.fileSpot logPath = .ok (base, name, some (h.log, text.toByteArray)) ∧
      Log.served h.files text = .ok h.position ∧
      (t' = t ∧ t.readText logPath = .ok text ∨
        t.readText logPath = .error .notFound ∧ text = "") := by
  obtain ⟨-, hfiles, hresume, -, hfile⟩ := openAt_resumed hopen
  obtain ⟨base, name, log, hspot, hwas⟩ := FileTree.fileSpot_openFile hfile
  rw [← hfiles] at hresume
  rcases hwas with rfl | ⟨hlook, rfl⟩
  · -- a log that is there has been read
    have hread := FileTree.contents_of_fileSpot hspot
    unfold Harness.resumePoint FileTree.readText at hresume
    unfold FileTree.readText
    rw [hread] at hresume ⊢
    dsimp only at hresume ⊢
    cases hdecode : String.fromUTF8? log with
    | none =>
      rw [hdecode] at hresume
      cases hresume
    | some text =>
      rw [hdecode] at hresume
      have hbytes : log = text.toByteArray := bytes_of_fromUTF8? hdecode
      exact ⟨base, name, text, hbytes ▸ hspot, hresume, .inl ⟨rfl, rfl⟩⟩
  · have hread : t.readText logPath = .error .notFound := by
      rw [FileTree.readText, FileTree.contents, hlook]
    rw [Harness.resumePoint, hread] at hresume
    refine ⟨base, name, "", hspot, ?_, .inr ⟨hread, rfl⟩⟩
    rw [← hresume]
    cases h.files <;> rfl

/-! ## opening on a log -/

section
variable {base : List Name} {name : Name} {mark : Nat} {text : String}

theorem openFile_of_fileSpot {content : ByteArray}
    (hspot : t.fileSpot logPath = .ok (base, name, some (mark, content))) :
    t.openFile logPath = .ok (mark, t) := by
  rw [FileTree.openFile, hspot]

theorem readText_of_free (hspot : t.fileSpot logPath = .ok (base, name, none)) :
    t.readText logPath = .error .notFound := by
  rw [FileTree.readText, FileTree.contents, FileTree.look_of_free hspot]

theorem readText_of_fileSpot
    (hspot : t.fileSpot logPath = .ok (base, name, some (mark, text.toByteArray))) :
    t.readText logPath = .ok text := by
  have hdecode : String.fromUTF8? text.toByteArray = some text := by
    rw [String.fromUTF8?, dif_pos text.isValidUTF8]
    rfl
  rw [FileTree.readText, FileTree.contents_of_fileSpot hspot]
  dsimp only
  rw [hdecode]

theorem resumePoint_of_fileSpot {files : List Path}
    (hspot : t.fileSpot logPath = .ok (base, name, some (mark, text.toByteArray))) :
    Harness.resumePoint files logPath t = Log.served files text := by
  rw [Harness.resumePoint, readText_of_fileSpot hspot]

/-- Opening goes on to the log where it is known from which file on. -/
theorem openAt_of_resumePoint {n : Nat} (hdir : t.isDir dir = true)
    (hresume : Harness.resumePoint (t.files dir) logPath t = .ok n) :
    ∃ hn, Harness.openAt dir logPath true t = Harness.openLog (t.files dir) n hn logPath t := by
  unfold Harness.openAt
  rw [hdir, if_neg (by decide)]
  dsimp only
  rw [if_pos rfl]
  split
  · next err herr =>
    rw [hresume] at herr
    cases herr
  · next m hm =>
    rw [hresume] at hm
    cases hm
    exact ⟨Harness.resumePoint_le hresume, rfl⟩

theorem openAt_of_resumePoint_error {err : ReplayError} (hdir : t.isDir dir = true)
    (hresume : Harness.resumePoint (t.files dir) logPath t = .error err) :
    Harness.openAt dir logPath true t = (.error err, t) := by
  unfold Harness.openAt
  rw [hdir, if_neg (by decide)]
  dsimp only
  rw [if_pos rfl]
  split
  · next err' herr =>
    rw [hresume] at herr
    cases herr
    rfl
  · next n hn =>
    rw [hresume] at hn
    cases hn

theorem openAt_of_served (hdir : t.isDir dir = true) (hfiles : t.files dir = h.files)
    (hpath : h.logPath = logPath)
    (hspot : t.fileSpot logPath = .ok (base, name, some (h.log, text.toByteArray)))
    (hserved : Log.served h.files text = .ok h.position) :
    Harness.openAt dir logPath true t = (.ok h, t) := by
  have hresume : Harness.resumePoint (t.files dir) logPath t = .ok h.position := by
    rw [resumePoint_of_fileSpot hspot, hfiles, hserved]
  obtain ⟨hn, hopen⟩ := openAt_of_resumePoint hdir hresume
  obtain ⟨files, position, path, log, hle⟩ := h
  subst hfiles hpath
  rw [hopen, Harness.openLog, openFile_of_fileSpot hspot]

theorem openAt_of_refused {files : List Path} {err : ReplayError} (hdir : t.isDir dir = true)
    (hfiles : t.files dir = files)
    (hspot : t.fileSpot logPath = .ok (base, name, some (mark, text.toByteArray)))
    (hserved : Log.served files text = .error err) :
    Harness.openAt dir logPath true t = (.error err, t) := by
  have hresume : Harness.resumePoint (t.files dir) logPath t = .error err := by
    rw [resumePoint_of_fileSpot hspot, hfiles, hserved]
  exact openAt_of_resumePoint_error hdir hresume

end

end

end PageFuzz.Replay
