import PageFuzz.Files.Cause
import PageFuzz.Session.ConfigError
import PageFuzz.Text.Lines

/-!
# The log of a replay

A log has one line for each file that was served: its path as a text, and a line feed.  A replay
can go on from a log whose lines are the first files of the corpus, and from no other; empty lines
do not count.
-/

namespace PageFuzz

inductive ReplayError where
  | configuration (fault : ConfigError)
  | io (path : Path) (cause : IoCause)
  /-- The log and the corpus differ: number, the corpus file's text (or none), the log's text. -/
  | logMismatch (line : Nat) (expected found : String)
deriving DecidableEq, Repr

namespace ReplayError

def message : ReplayError → String
  | configuration fault => "configuration error: " ++ fault.message
  | io path cause => "I/O error on " ++ path.display ++ ": " ++ cause.message
  | logMismatch line expected found =>
    "log line " ++ toString line ++ " is '" ++ found ++ "' but corpus file " ++ toString line ++
      " is '" ++ expected ++ "'"

/-- the messages from this error down to its first cause -/
def causes : ReplayError → List String
  | configuration fault => [message (configuration fault), fault.message]
  | io path cause => [message (io path cause), cause.message]
  | e => [e.message]

end ReplayError

namespace Replay.Log

/-- the name of the log of the replay at a port -/
def fileName (port : Nat) : String := "htmlharness-log-" ++ toString port ++ ".txt"

/-- the line of a file that was served -/
def line (p : Path) : String := p.display ++ "\n"

/-- what a log says was served, one text for each line that is not empty -/
def entries (text : String) : List String :=
  ((Text.lines text.toList).filter (!·.isEmpty)).map String.ofList

theorem entries_empty : entries "" = [] := rfl

/-- Count entries along the files, after `done` of them; the first entry that is not its file's
path is a mismatch. -/
def matchFrom (done : Nat) : List Path → List String → Except ReplayError Nat
  | _, [] => .ok done
  | [], found :: _ => .error (.logMismatch (done + 1) "" found)
  | p :: ps, found :: es =>
    if found = p.display then matchFrom (done + 1) ps es
    else .error (.logMismatch (done + 1) p.display found)

/-- how many of the files a log says were served -/
def served (files : List Path) (text : String) : Except ReplayError Nat :=
  matchFrom 0 files (entries text)

theorem matchFrom_le {done n : Nat} {files : List Path} {es : List String}
    (h : matchFrom done files es = .ok n) : n ≤ done + files.length := by
  induction es generalizing done files with
  | nil =>
    cases files <;> cases h <;> simp
  | cons e es ih =>
    cases files with
    | nil => cases h
    | cons p ps =>
      simp only [matchFrom] at h
      split at h
      · have := ih h
        simp only [List.length_cons]
        omega
      · cases h

/-- A log that is accepted never says that more was served than there is. -/
theorem served_le {files : List Path} {text : String} {n : Nat}
    (h : served files text = .ok n) : n ≤ files.length := by
  have := matchFrom_le h
  omega

end Replay.Log

end PageFuzz
