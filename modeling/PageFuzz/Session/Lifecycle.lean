/-!
# The life of a session

A session is prepared, runs, and is stopped once; it never goes back.
-/

namespace PageFuzz

inductive Lifecycle where
  | init
  | running
  | stopped
deriving DecidableEq, Repr

namespace Lifecycle

def display : Lifecycle → String
  | init => "init"
  | running => "running"
  | stopped => "stopped"

/-- the states that may follow -/
def successors : Lifecycle → List Lifecycle
  | init => [running, stopped]
  | running => [stopped]
  | stopped => []

theorem init_not_mem_successors (s : Lifecycle) : init ∉ s.successors := by
  cases s <;> decide

end Lifecycle

end PageFuzz
