import PageFuzz.Session.ConfigError

/-!
# Retention

A session keeps the last pages of its directory, as many as its window says.
-/

namespace PageFuzz

structure Retention where
  window : Nat
  window_pos : 0 < window
deriving DecidableEq, Repr

namespace Retention

def standard : Retention := ⟨20, by decide⟩

def ofWindow (window : Nat) : Except ConfigError Retention :=
  if h : 0 < window then .ok ⟨window, h⟩ else .error .zeroRetention

theorem ofWindow_window (r : Retention) : ofWindow r.window = .ok r := by
  simp [ofWindow, r.window_pos]

/-- the number of the page that leaves when page `n` comes -/
def evictee (r : Retention) (n : Nat) : Option Nat :=
  if r.window < n then some (n - r.window) else none

theorem evictee_eq_some {r : Retention} {n k : Nat} :
    r.evictee n = some k ↔ 0 < k ∧ n = k + r.window := by
  simp only [evictee, Option.ite_none_right_eq_some, Option.some.injEq]
  omega

end Retention

end PageFuzz
