import PageFuzz.Derivation.Limits
import PageFuzz.Files.Cause
import PageFuzz.Session.ConfigError
import PageFuzz.Session.Lifecycle

/-!
# Errors of a session

After a recoverable error the session goes on with its next page.
-/

namespace PageFuzz

inductive SessionError where
  | configuration (fault : ConfigError)
  | expansion (cause : ExpansionError)
  | io (path : Path) (cause : IoCause)
  | illegalTransition (source target : Lifecycle)
  | notRunning (state : Lifecycle)
deriving DecidableEq, Repr

namespace SessionError

def message : SessionError → String
  | configuration fault => "configuration error: " ++ fault.message
  | expansion cause => "generation failed: " ++ cause.message
  | io path cause => "I/O error on " ++ path.display ++ ": " ++ cause.message
  | illegalTransition source target =>
    "illegal session transition: " ++ source.display ++ " -> " ++ target.display
  | notRunning state => "session is not running (state: " ++ state.display ++ ")"

def isRecoverable : SessionError → Bool
  | expansion _ => true
  | io _ _ => true
  | _ => false

/-- the messages from this error down to its first cause -/
def causes : SessionError → List String
  | configuration fault => [message (configuration fault), fault.message]
  | expansion cause => message (expansion cause) :: cause.causes
  | io path cause => [message (io path cause), cause.message]
  | e => [e.message]

end SessionError

/-- go on to a state that may follow -/
def Lifecycle.advance (source target : Lifecycle) : Except SessionError Lifecycle :=
  if source.successors.contains target then .ok target
  else .error (.illegalTransition source target)

theorem Lifecycle.advance_stopped (target : Lifecycle) :
    stopped.advance target = .error (.illegalTransition .stopped target) := rfl

end PageFuzz
