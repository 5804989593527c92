import PageFuzz.Derivation.Chooser
import PageFuzz.Derivation.Limits

/-!
# Expansion with a work stack

`Expander.generate` expands a start symbol until only text is left.  The sequences that are being
read lie on a stack, so that a grammar which refers to itself meets a limit and never the end of
the machine's own stack.  A sequence that has been read to its end leaves the stack only after its
last symbol is done, so the height of the stack is the depth of the derivation.

The run ends because `weight` falls with every step: a symbol at one height outweighs any sequence
one height above it.
-/

namespace PageFuzz

/-- The sequences that are being read, the innermost first, each by what is left of it. -/
structure Stack where
  frames : List (List Symbol)
  depth : Nat
  depth_eq : depth = frames.length

namespace Stack

def empty : Stack := ⟨[], 0, rfl⟩

def ofFrames (frames : List (List Symbol)) : Stack := ⟨frames, frames.length, rfl⟩

def push (f : List Symbol) (s : Stack) : Stack :=
  ⟨f :: s.frames, s.depth + 1, by rw [s.depth_eq, List.length_cons]⟩

theorem frames_push (f : List Symbol) (s : Stack) : (s.push f).frames = f :: s.frames := rfl

/-- what is left to do on a stack of at most `height` sequences of at most `width` symbols -/
def weight (height width : Nat) : List (List Symbol) → Nat
  | [] => 0
  | f :: fs =>
    (f.length + 1) * (width + 2).pow (height - (fs.length + 1)) + weight height width fs

theorem weight_pop (height width : Nat) (f : List Symbol) (fs : List (List Symbol)) :
    weight height width fs < weight height width (f :: fs) := by
  have : 0 < (f.length + 1) * (width + 2).pow (height - (fs.length + 1)) :=
    Nat.mul_pos (Nat.succ_pos _) (Nat.pow_pos (by omega))
  simp only [weight]
  omega

theorem weight_read (height width : Nat) (x : Symbol) (f : List Symbol)
    (fs : List (List Symbol)) :
    weight height width (f :: fs) < weight height width ((x :: f) :: fs) := by
  have : 0 < (width + 2).pow (height - (fs.length + 1)) := Nat.pow_pos (by omega)
  simp only [weight, List.length_cons, Nat.add_mul]
  omega

theorem weight_push {height width : Nat} (x : Symbol) (g f : List Symbol)
    (fs : List (List Symbol)) (hg : g.length ≤ width) (hfs : fs.length + 1 < height) :
    weight height width (g :: f :: fs) < weight height width ((x :: f) :: fs) := by
  have hheight : height - (fs.length + 1) = height - (fs.length + 1 + 1) + 1 := by omega
  have hpow : (width + 2).pow (height - (fs.length + 1)) =
      (width + 2) * (width + 2).pow (height - (fs.length + 1 + 1)) := by
    rw [hheight]
    exact Nat.pow_succ'
  have hlt : (g.length + 1) * (width + 2).pow (height - (fs.length + 1 + 1)) <
      (width + 2).pow (height - (fs.length + 1)) := by
    rw [hpow]
    exact (Nat.mul_lt_mul_right (Nat.pow_pos (by omega))).mpr (by omega)
  simp only [weight, List.length_cons, Nat.add_mul] at hlt ⊢
  omega

end Stack

/-- what is left to read, and the text so far -/
structure Work where
  stack : Stack
  text : String

structure Expander where
  grammar : Grammar
  limits : Limits := {}

namespace Expander

/-- the alternative that an answer names, the last one if the answer is too large -/
def clamped (a : Alternative) (alts : List Alternative) (answer : Nat) : Alternative :=
  (a :: alts).get ⟨min answer alts.length, by rw [List.length_cons]; omega⟩

theorem clamped_mem (a : Alternative) (alts : List Alternative) (answer : Nat) :
    clamped a alts answer ∈ a :: alts := List.get_mem _ _

/-- put an alternative to work: a literal is written, a sequence goes onto the stack -/
def schedule (e : Expander) (w : Work) : Alternative → Except ExpansionError Work
  | .literal text => (e.limits.append w.text text).map fun t => { w with text := t }
  | .sequence syms =>
    if e.limits.maxDepth ≤ w.stack.depth then .error (.depthExceeded e.limits.maxDepth)
    else .ok { w with stack := w.stack.push syms }

/-- choose an alternative of a name and put it to work -/
def enter {σ : Type} (e : Expander) (c : Chooser σ) (name : String) (w : Work) (s : σ) :
    Except ExpansionError Work × σ :=
  match e.grammar.alternatives? name with
  | some (a :: alts) =>
    let answer := c.pick s (alts.length + 1)
    (e.schedule w (clamped a alts answer.1), answer.2)
  | _ => (.error (.grammar (.undefined name none)), s)

theorem schedule_stack {e : Expander} {w w' : Work} {a : Alternative}
    (h : e.schedule w a = .ok w') :
    w'.stack = w.stack ∨
      w.stack.depth < e.limits.maxDepth ∧ w'.stack = w.stack.push a.symbols := by
  cases a with
  | literal text =>
    simp only [schedule] at h
    cases hl : e.limits.append w.text text with
    | error err => rw [hl] at h; cases h
    | ok t => rw [hl] at h; cases h; exact .inl rfl
  | sequence syms =>
    simp only [schedule] at h
    split at h
    · cases h
    · cases h
      exact .inr ⟨by omega, rfl⟩

theorem enter_stack {σ : Type} {e : Expander} {c : Chooser σ} {name : String} {w w' : Work}
    {s s' : σ} (h : e.enter c name w s = (.ok w', s')) :
    w'.stack = w.stack ∨ ∃ f : List Symbol, f.length ≤ e.grammar.width ∧
      w.stack.depth < e.limits.maxDepth ∧ w'.stack = w.stack.push f := by
  simp only [enter] at h
  split at h
  · next a alts hg =>
    obtain ⟨h, -⟩ := Prod.mk.inj h
    rcases schedule_stack h with h | ⟨hd, h⟩
    · exact .inl h
    · exact .inr ⟨_, Grammar.length_symbols_le_width hg (clamped_mem _ _ _), hd, h⟩
  · cases h

/-- what one step leads to: the end of the run, or work to go on with -/
inductive Turn where
  | done (result : Except ExpansionError String)
  | next (w : Work)

/-- Read one symbol of the innermost sequence, or take that sequence off if it has none left. -/
def step {σ : Type} (e : Expander) (c : Chooser σ) (w : Work) (s : σ) : Turn × σ :=
  match w.stack with
  | ⟨[], _, _⟩ => (.done (.ok w.text), s)
  | ⟨[] :: fs, d, hd⟩ => (.next { w with stack := ⟨fs, d - 1, by simp [hd]⟩ }, s)
  | ⟨(.terminal text :: f) :: fs, d, hd⟩ =>
    match e.limits.append w.text text with
    | .error err => (.done (.error err), s)
    | .ok t => (.next ⟨⟨f :: fs, d, hd⟩, t⟩, s)
  | ⟨(.nonterminal name :: f) :: fs, d, hd⟩ =>
    match e.enter c name { w with stack := ⟨f :: fs, d, hd⟩ } s with
    | (.error err, s') => (.done (.error err), s')
    | (.ok w', s') => (.next w', s')

/-- how much is left to do at most -/
def remaining (e : Expander) (w : Work) : Nat :=
  Stack.weight e.limits.maxDepth e.grammar.width w.stack.frames

theorem remaining_step {σ : Type} {e : Expander} {c : Chooser σ} {w w' : Work} {s s' : σ}
    (h : e.step c w s = (.next w', s')) : e.remaining w' < e.remaining w := by
  obtain ⟨⟨frames, d, hd⟩, text⟩ := w
  simp only [step] at h
  match frames, hd, h with
  | [], hd, h => cases h
  | [] :: fs, hd, h =>
    cases h
    exact Stack.weight_pop _ _ _ _
  | (.terminal x :: f) :: fs, hd, h =>
    cases hl : e.limits.append text x with
    | error err => simp [hl] at h
    | ok t =>
      simp only [hl] at h
      cases h
      exact Stack.weight_read _ _ _ _ _
  | (.nonterminal name :: f) :: fs, hd, h =>
    dsimp only at h
    split at h
    · cases h
    · next w'' s'' he =>
      cases h
      rcases enter_stack he with hs | ⟨g, hg, hlt, hs⟩
      · simp only [remaining, hs]
        exact Stack.weight_read _ _ _ _ _
      · simp only [remaining, hs, Stack.frames_push]
        refine Stack.weight_push _ _ _ _ hg ?_
        simpa [hd] using hlt

/-- step after step until the end -/
def run {σ : Type} (e : Expander) (c : Chooser σ) (w : Work) (s : σ) :
    Except ExpansionError String × σ :=
  match _h : e.step c w s with
  | (.done result, s') => (result, s')
  | (.next w', s') => run e c w' s'
termination_by e.remaining w
decreasing_by exact remaining_step _h

/-- a text derived from a start symbol, and the state that the chooser is left in -/
def generate {σ : Type} (e : Expander) (c : Chooser σ) (start : String) (s : σ) :
    Except ExpansionError String × σ :=
  match e.enter c start ⟨.empty, ""⟩ s with
  | (.error err, s') => (.error err, s')
  | (.ok w, s') => e.run c w s'

/-- A start symbol that is no rule is refused before any draw. -/
theorem generate_of_not_contains {σ : Type} {e : Expander} (c : Chooser σ) {start : String}
    (s : σ) (h : e.grammar.contains start = false) :
    e.generate c start s = (.error (.grammar (.undefined start none)), s) := by
  have : e.grammar.alternatives? start = none := by
    simpa [Grammar.contains] using h
  simp [generate, enter, this]

end Expander

end PageFuzz
