import PageFuzz.Grammar.Basic

/-!
# Limits of a derivation

A derivation may nest at most `maxDepth` sequences and write at most `maxOutput` bytes.  Every
terminal and every literal is followed by one space.
-/

namespace PageFuzz

structure Limits where
  maxDepth : Nat := 512
  maxOutput : Nat := 8 * 1024 * 1024
deriving DecidableEq, Repr

inductive ExpansionError where
  | grammar (fault : GrammarError)
  | depthExceeded (limit : Nat)
  | outputExceeded (limit : Nat)
deriving DecidableEq, Repr

namespace ExpansionError

def message : ExpansionError → String
  | grammar fault => "grammar error: " ++ fault.message
  | depthExceeded limit => "expansion depth exceeded limit of " ++ toString limit
  | outputExceeded limit => "expansion output exceeded limit of " ++ toString limit ++ " bytes"

/-- a limit was met, so that other draws may succeed; a fault of the grammar stays -/
def isLimit : ExpansionError → Bool
  | grammar _ => false
  | depthExceeded _ => true
  | outputExceeded _ => true

/-- the messages from this error down to its first cause -/
def causes : ExpansionError → List String
  | grammar fault => [message (grammar fault), fault.message]
  | e => [e.message]

end ExpansionError

/-- a text with one more piece and the space after it, if that is not too long -/
def Limits.append (l : Limits) (text piece : String) : Except ExpansionError String :=
  let text := text ++ piece ++ " "
  if l.maxOutput < text.utf8ByteSize then .error (.outputExceeded l.maxOutput) else .ok text

theorem Limits.append_eq_ok {l : Limits} {text piece out : String}
    (h : l.append text piece = .ok out) :
    out = text ++ piece ++ " " ∧ out.utf8ByteSize ≤ l.maxOutput := by
  simp only [append] at h
  split at h
  · cases h
  · cases h
    exact ⟨rfl, by omega⟩

end PageFuzz
