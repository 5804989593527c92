import PageFuzz.Derivation.Expander

/-!
# Derivation by plain recursion

The same derivation as `Expander.generate`, said without a stack: expanding a name goes through
the chosen sequence from left to right and expands each reference in turn, one level deeper.
-/

namespace PageFuzz.Expander

/-- go through a sequence, with `sub` to expand a reference -/
def deriveSequence {σ : Type} (limits : Limits)
    (sub : String → String → σ → Except ExpansionError String × σ) :
    List Symbol → String → σ → Except ExpansionError String × σ
  | [], text, s => (.ok text, s)
  | .terminal t :: syms, text, s =>
    match limits.append text t with
    | .error err => (.error err, s)
    | .ok text => deriveSequence limits sub syms text s
  | .nonterminal name :: syms, text, s =>
    match sub name text s with
    | (.error err, s) => (.error err, s)
    | (.ok text, s) => deriveSequence limits sub syms text s

/-- expand a name after `text`, inside `depth` sequences -/
def deriveName {σ : Type} (e : Expander) (c : Chooser σ) (depth : Nat) (name text : String)
    (s : σ) : Except ExpansionError String × σ :=
  match e.grammar.alternatives? name with
  | some (a :: alts) =>
    let answer := c.pick s (alts.length + 1)
    match clamped a alts answer.1 with
    | .literal t => (e.limits.append text t, answer.2)
    | .sequence syms =>
      if _h : e.limits.maxDepth ≤ depth then
        (.error (.depthExceeded e.limits.maxDepth), answer.2)
      else deriveSequence e.limits (deriveName e c (depth + 1)) syms text answer.2
  | _ => (.error (.grammar (.undefined name none)), s)
termination_by e.limits.maxDepth - depth

def derive {σ : Type} (e : Expander) (c : Chooser σ) (start : String) (s : σ) :
    Except ExpansionError String × σ :=
  e.deriveName c 0 start "" s

end PageFuzz.Expander
