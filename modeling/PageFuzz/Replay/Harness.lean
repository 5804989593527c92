import PageFuzz.Files.Listing
import PageFuzz.Replay.Log

/-!
# The replay of a corpus

A harness serves the files of a directory one after another and writes each into its log.  The
list of files is taken once, when the harness is opened.

* `openAt`   at the start of the list with an empty log, or after the files of an earlier log;
* `next`     the next file's page, or the news that all have been served; the file may not be
             readable, and the log may not take its line.
-/

namespace PageFuzz.Replay

/-- Put before each page: the browser shall come back at once and keep nothing. -/
def refreshHeader : String :=
  "<meta http-equiv=\"refresh\" content=\"1\"> " ++
    "<meta http-equiv=\"cache-control\" content=\"no-cache\">"

/-- shown when all files have been served -/
def completedPage : String :=
  "<html><head><title>All done!</title></head><body><p>Finished!</p></body></html>"

inductive Page where
  | document (path : Path) (body : ByteArray)
  | completed

def Page.body : Page → ByteArray
  | document _ body => body
  | completed => completedPage.toByteArray

structure Harness where
  files : List Path
  /-- how many of the files have been served -/
  position : Nat
  logPath : Path
  /-- the mark of the log file -/
  log : Nat
  position_le : position ≤ files.length

namespace Harness

def remaining (h : Harness) : Nat := h.files.length - h.position

/-- where an earlier run stopped: a log that is not there is that of no run -/
def resumePoint (files : List Path) (logPath : Path) (t : FileTree) : Except ReplayError Nat :=
  match t.readText logPath with
  | .error .notFound => .ok 0
  | .error cause => .error (.io logPath cause)
  | .ok text => Log.served files text

theorem resumePoint_le {files : List Path} {logPath : Path} {t : FileTree} {n : Nat}
    (h : resumePoint files logPath t = .ok n) : n ≤ files.length := by
  simp only [resumePoint] at h
  split at h
  · cases h
    exact Nat.zero_le _
  · cases h
  · exact Log.served_le h

/-- a harness after the first files of a list, with its log open -/
def openLog (files : List Path) (position : Nat) (position_le : position ≤ files.length)
    (logPath : Path) (t : FileTree) : Except ReplayError Harness × FileTree :=
  match t.openFile logPath with
  | .error cause => (.error (.io logPath cause), t)
  | .ok (log, t) => (.ok { files, position, logPath, log, position_le }, t)

/-- Open the corpus in a directory.  A fresh run empties its log and a resumed run keeps it. -/
def openAt (dir logPath : Path) (resume : Bool) (t : FileTree) :
    Except ReplayError Harness × FileTree :=
  if !t.isDir dir then (.error (.configuration (.missingDirectory dir)), t)
  else
    let files := t.files dir
    if resume then
      match _h : resumePoint files logPath t with
      | .error e => (.error e, t)
      | .ok n => openLog files n (resumePoint_le _h) logPath t
    else
      match openLog files 0 (Nat.zero_le _) logPath t with
      | (.error e, t) => (.error e, t)
      | (.ok h, t) => (.ok h, t.update h.log fun _ => .empty)

/-- What a write to the log meets that fails, and how many bytes of the line it has written
before. -/
structure LogFault where
  cause : IoCause
  written : Nat

/-- Serve the next file.  One that cannot be read stays the next one, and so does one whose line
cannot be written into the log. -/
def next (h : Harness) (t : FileTree) (fault : Option LogFault := none) :
    Except ReplayError Page × Harness × FileTree :=
  if hp : h.position < h.files.length then
    let path := h.files[h.position]
    match t.contents path with
    | .error cause => (.error (.io path cause), h, t)
    | .ok content =>
      let line := (Log.line path).toByteArray
      match fault with
      | some fault =>
        (.error (.io h.logPath fault.cause), h, t.update h.log (· ++ line.extract 0 fault.written))
      | none =>
        (.ok (.document path (refreshHeader.toByteArray ++ content)),
          { h with position := h.position + 1, position_le := hp }, t.update h.log (· ++ line))
  else (.ok .completed, h, t)

theorem next_of_remaining_eq_zero {h : Harness} (t : FileTree) (hr : h.remaining = 0) :
    h.next t = (.ok .completed, h, t) := by
  have : ¬ h.position < h.files.length := by
    simp only [remaining] at hr
    omega
  simp [next, this]

/-- the files never change -/
theorem files_next (h : Harness) (t : FileTree) : (h.next t).2.1.files = h.files := by
  simp only [next]
  split
  · split <;> rfl
  · rfl

/-- A call that fails serves nothing: the same file is the next one, and the error names that file
or the log. -/
theorem next_of_error {h : Harness} {t : FileTree} {fault : Option LogFault} {e : ReplayError}
    (he : (h.next t fault).1 = .error e) :
    (h.next t fault).2.1 = h ∧ ∃ path cause, e = .io path cause ∧
      (h.files[h.position]? = some path ∨ path = h.logPath) := by
  unfold next at he ⊢
  split at he
  · next hp =>
    rw [dif_pos hp]
    dsimp only at he ⊢
    cases hread : t.contents h.files[h.position] with
    | error cause =>
      rw [hread] at he
      cases he
      exact ⟨rfl, _, _, rfl, .inl (List.getElem?_eq_getElem hp)⟩
    | ok content =>
      rw [hread] at he
      cases fault with
      | none => cases he
      | some fault =>
        cases he
        exact ⟨rfl, _, _, rfl, .inr rfl⟩
  · cases he

end Harness

end PageFuzz.Replay
