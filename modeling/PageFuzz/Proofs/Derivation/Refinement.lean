import Mathlib.Tactic.Common
import PageFuzz.Derivation.Recursive

/-!
# The work stack and plain recursion derive the same

`Expander.generate` works on a stack of half-read sequences and `Expander.derive` is plain
recursion.  They agree on the result and on what the chooser is left with, for every chooser.

* `deriveFrames`        what a stack still stands for: its sequences are derived one after another,
                        the innermost first, the names in each one level below its height;
* `deriveFrames_step`   one step of the loop does not change what the stack stands for;
* `generate_eq_derive`  hence the loop and the recursion agree;
* `generate_map`        a chooser that looks at its state through a function draws alike, which
                        shows that recording the draws changes nothing.
-/

namespace PageFuzz

/-! ## going on after a success -/

/-- a derivation and, if it succeeds, another one after its text -/
def andThen {σ : Type} (r : Except ExpansionError String × σ)
    (k : String → σ → Except ExpansionError String × σ) : Except ExpansionError String × σ :=
  match r with
  | (.error err, s) => (.error err, s)
  | (.ok text, s) => k text s

section
variable {σ : Type}

theorem andThen_assoc (r : Except ExpansionError String × σ)
    (k l : String → σ → Except ExpansionError String × σ) :
    andThen (andThen r k) l = andThen r fun text s => andThen (k text s) l := by
  obtain ⟨_ | _, _⟩ := r <;> rfl

theorem andThen_eq_ok {r : Except ExpansionError String × σ}
    {k : String → σ → Except ExpansionError String × σ} {text : String} {s' : σ}
    (h : andThen r k = (.ok text, s')) : ∃ u s, r = (.ok u, s) ∧ k u s = (.ok text, s') := by
  obtain ⟨err | u, s⟩ := r
  · cases h
  · exact ⟨u, s, rfl, h⟩

end

namespace Expander
section
variable {σ : Type} (e : Expander) (c : Chooser σ)

/-! ## the recursion, one case after another -/

theorem deriveSequence_terminal (limits : Limits)
    (sub : String → String → σ → Except ExpansionError String × σ) (t : String)
    (syms : List Symbol) (text : String) (s : σ) :
    deriveSequence limits sub (.terminal t :: syms) text s =
      andThen (limits.append text t, s) (deriveSequence limits sub syms) := by
  rw [deriveSequence]
  cases limits.append text t <;> rfl

theorem deriveSequence_nonterminal (limits : Limits)
    (sub : String → String → σ → Except ExpansionError String × σ) (name : String)
    (syms : List Symbol) (text : String) (s : σ) :
    deriveSequence limits sub (.nonterminal name :: syms) text s =
      andThen (sub name text s) (deriveSequence limits sub syms) := by
  rw [deriveSequence]
  obtain ⟨_ | _, _⟩ := sub name text s <;> rfl

/-- what becomes of a chosen alternative, inside `depth` sequences -/
def deriveAlternative (depth : Nat) (text : String) (s : σ) :
    Alternative → Except ExpansionError String × σ
  | .literal t => (e.limits.append text t, s)
  | .sequence syms =>
    if e.limits.maxDepth ≤ depth then (.error (.depthExceeded e.limits.maxDepth), s)
    else deriveSequence e.limits (e.deriveName c (depth + 1)) syms text s

theorem deriveName_of_alternatives {name : String} {a : Alternative} {alts : List Alternative}
    (h : e.grammar.alternatives? name = some (a :: alts)) (depth : Nat) (text : String) (s : σ) :
    e.deriveName c depth name text s =
      e.deriveAlternative c depth text (c.pick s (alts.length + 1)).2
        (clamped a alts (c.pick s (alts.length + 1)).1) := by
  rw [deriveName, h]
  show (match clamped a alts (c.pick s (alts.length + 1)).1 with
    | .literal t => _
    | .sequence syms => _) = _
  cases clamped a alts (c.pick s (alts.length + 1)).1 with
  | literal t => rfl
  | sequence syms => rfl

theorem deriveName_of_no_alternatives {name : String}
    (h : ∀ a alts, e.grammar.alternatives? name ≠ some (a :: alts)) (depth : Nat) (text : String)
    (s : σ) : e.deriveName c depth name text s = (.error (.grammar (.undefined name none)), s) := by
  rw [deriveName]
  split
  · next a alts hg => exact absurd hg (h a alts)
  · rfl

/-! ## what a stack stands for -/

/-- go on with the sequences of a stack, the innermost first -/
def deriveFrames : List (List Symbol) → String → σ → Except ExpansionError String × σ
  | [], text, s => (.ok text, s)
  | f :: fs, text, s =>
    andThen (deriveSequence e.limits (e.deriveName c (fs.length + 1)) f text s) (deriveFrames fs)

/-- go on with work that was put on the stack, unless that failed -/
def resume : Except ExpansionError Work × σ → Except ExpansionError String × σ
  | (.error err, s) => (.error err, s)
  | (.ok w, s) => e.deriveFrames c w.stack.frames w.text s

theorem resume_schedule (a : Alternative) (w : Work) (s : σ) :
    e.resume c (e.schedule w a, s) =
      andThen (e.deriveAlternative c w.stack.depth w.text s a)
        (e.deriveFrames c w.stack.frames) := by
  cases a with
  | literal t =>
    rw [schedule, deriveAlternative]
    cases e.limits.append w.text t <;> rfl
  | sequence syms =>
    rw [schedule, deriveAlternative]
    by_cases hd : e.limits.maxDepth ≤ w.stack.depth
    · rw [if_pos hd, if_pos hd]
      rfl
    · rw [if_neg hd, if_neg hd, w.stack.depth_eq]
      rfl

/-- Entering a name and then going on is deriving the name and then going on. -/
theorem resume_enter (name : String) (w : Work) (s : σ) :
    e.resume c (e.enter c name w s) =
      andThen (e.deriveName c w.stack.depth name w.text s) (e.deriveFrames c w.stack.frames) := by
  unfold enter
  split
  · next a alts hg =>
    rw [deriveName_of_alternatives e c hg]
    exact resume_schedule e c _ w _
  · next hg =>
    rw [deriveName_of_no_alternatives e c hg]
    rfl

/-- The outcome of one step: what it ends with, or what the work after it stands for. -/
def resumeTurn : Turn × σ → Except ExpansionError String × σ
  | (.done result, s) => (result, s)
  | (.next w, s) => e.deriveFrames c w.stack.frames w.text s

/-- One step does not change what the stack stands for. -/
theorem deriveFrames_step (w : Work) (s : σ) :
    e.resumeTurn c (e.step c w s) = e.deriveFrames c w.stack.frames w.text s := by
  obtain ⟨⟨frames, d, hd⟩, text⟩ := w
  match frames, hd with
  | [], hd => rfl
  | [] :: fs, hd => rfl
  | (.terminal t :: f) :: fs, hd =>
    show _ = andThen (deriveSequence e.limits _ (.terminal t :: f) text s) (e.deriveFrames c fs)
    rw [deriveSequence_terminal, andThen_assoc]
    simp only [step]
    cases e.limits.append text t <;> rfl
  | (.nonterminal name :: f) :: fs, hd =>
    have hdepth : d = fs.length + 1 := by rw [hd, List.length_cons]
    show _ = andThen (deriveSequence e.limits _ (.nonterminal name :: f) text s)
      (e.deriveFrames c fs)
    have henter := resume_enter e c name ⟨⟨f :: fs, d, hd⟩, text⟩ s
    rw [deriveSequence_nonterminal, andThen_assoc, ← hdepth]
    have hframes : e.deriveFrames c (f :: fs) =
        fun text s => andThen (deriveSequence e.limits (e.deriveName c d) f text s)
          (e.deriveFrames c fs) := by
      rw [hdepth]
      rfl
    rw [← hframes, ← henter]
    simp only [step]
    obtain ⟨_ | _, _⟩ := e.enter c name ⟨⟨f :: fs, d, hd⟩, text⟩ s <;> rfl

/-! ## whole runs -/

theorem run_of_done {w : Work} {s s' : σ} {result : Except ExpansionError String}
    (h : e.step c w s = (.done result, s')) : e.run c w s = (result, s') := by
  rw [run]
  split
  · next h' =>
    rw [h] at h'
    cases h'
    rfl
  · next h' =>
    rw [h] at h'
    cases h'

theorem run_of_next {w w' : Work} {s s' : σ} (h : e.step c w s = (.next w', s')) :
    e.run c w s = e.run c w' s' := by
  rw [run]
  split
  · next h' =>
    rw [h] at h'
    cases h'
  · next h' =>
    rw [h] at h'
    cases h'
    rfl

/-- The loop ends with what the stack stands for; `remaining` falls with each step. -/
theorem run_eq_deriveFrames (w : Work) (s : σ) :
    e.run c w s = e.deriveFrames c w.stack.frames w.text s := by
  induction hn : e.remaining w using Nat.strongRecOn generalizing w s with
  | ind n ih =>
    have hstep := deriveFrames_step e c w s
    cases ht : e.step c w s with
    | mk turn s' =>
      rw [ht] at hstep
      cases turn with
      | done result =>
        rw [run_of_done e c ht]
        exact hstep
      | next w' =>
        have hlt : e.remaining w' < n := hn ▸ remaining_step ht
        rw [run_of_next e c ht, ih _ hlt w' s' rfl]
        exact hstep

theorem generate_eq_derive (start : String) (s : σ) :
    e.generate c start s = e.derive c start s := by
  have henter := resume_enter e c start ⟨.empty, ""⟩ s
  have hlast : ∀ r : Except ExpansionError String × σ, andThen r (e.deriveFrames c []) = r := by
    rintro ⟨_ | _, _⟩ <;> rfl
  rw [generate, derive]
  show _ = e.deriveName c 0 start "" s
  rw [← hlast (e.deriveName c 0 start "" s)]
  show _ = andThen (e.deriveName c Stack.empty.depth start "" s)
    (e.deriveFrames c Stack.empty.frames)
  rw [← henter]
  cases e.enter c start ⟨.empty, ""⟩ s with
  | mk r s' =>
    cases r with
    | error err => rfl
    | ok w => exact run_eq_deriveFrames e c w s'

end

/-! ## the same draws on another state -/

section
variable {σ τ : Type} (e : Expander)

theorem map_andThen (view : τ → σ) (r : Except ExpansionError String × τ)
    (k : String → τ → Except ExpansionError String × τ)
    (l : String → σ → Except ExpansionError String × σ)
    (hk : ∀ text t, Prod.map id view (k text t) = l text (view t)) :
    Prod.map id view (andThen r k) = andThen (Prod.map id view r) l := by
  obtain ⟨err | text, t⟩ := r
  · rfl
  · exact hk text t

theorem deriveSequence_map (view : τ → σ)
    (sub : String → String → τ → Except ExpansionError String × τ)
    (sub' : String → String → σ → Except ExpansionError String × σ)
    (hsub : ∀ name text t, Prod.map id view (sub name text t) = sub' name text (view t))
    (syms : List Symbol) (text : String) (t : τ) :
    Prod.map id view (deriveSequence e.limits sub syms text t) =
      deriveSequence e.limits sub' syms text (view t) := by
  induction syms generalizing text t with
  | nil => rfl
  | cons sym syms ih =>
    cases sym with
    | terminal x =>
      rw [deriveSequence_terminal, deriveSequence_terminal, map_andThen view _ _ _ ih]
      rfl
    | nonterminal name =>
      rw [deriveSequence_nonterminal, deriveSequence_nonterminal, map_andThen view _ _ _ ih, hsub]

variable {e}
variable {c : Chooser τ} {c' : Chooser σ} {view : τ → σ}

theorem deriveAlternative_map {depth : Nat}
    (hdeeper : depth < e.limits.maxDepth → ∀ name text t,
      Prod.map id view (e.deriveName c (depth + 1) name text t) =
        e.deriveName c' (depth + 1) name text (view t))
    (text : String) (t : τ) (a : Alternative) :
    Prod.map id view (e.deriveAlternative c depth text t a) =
      e.deriveAlternative c' depth text (view t) a := by
  cases a with
  | literal x => rfl
  | sequence syms =>
    rw [deriveAlternative, deriveAlternative]
    by_cases hd : e.limits.maxDepth ≤ depth
    · rw [if_pos hd, if_pos hd]
      rfl
    · rw [if_neg hd, if_neg hd]
      exact deriveSequence_map e view _ _ (hdeeper (Nat.lt_of_not_le hd)) syms text t

/-- A chooser that draws as another one does, on a state that it sees through `view`, leads to the
same derivation.  The induction is on the levels of depth that are left. -/
theorem deriveName_map (hc : ∀ t n, Prod.map id view (c.pick t n) = c'.pick (view t) n)
    (depth : Nat) (name text : String) (t : τ) :
    Prod.map id view (e.deriveName c depth name text t) =
      e.deriveName c' depth name text (view t) := by
  induction hn : e.limits.maxDepth - depth using Nat.strongRecOn generalizing depth name text t with
  | ind n ih =>
    by_cases hg : ∃ a alts, e.grammar.alternatives? name = some (a :: alts)
    · obtain ⟨a, alts, hg⟩ := hg
      rw [deriveName_of_alternatives e c hg, deriveName_of_alternatives e c' hg, ← hc]
      refine deriveAlternative_map (fun hd name text t => ?_) text _ _
      exact ih _ (by omega) (depth + 1) name text t rfl
    · have hg' : ∀ a alts, e.grammar.alternatives? name ≠ some (a :: alts) :=
        fun a alts h => hg ⟨a, alts, h⟩
      rw [deriveName_of_no_alternatives e c hg', deriveName_of_no_alternatives e c' hg']
      rfl

theorem generate_map (hc : ∀ t n, Prod.map id view (c.pick t n) = c'.pick (view t) n)
    (start : String) (t : τ) :
    Prod.map id view (e.generate c start t) = e.generate c' start (view t) := by
  rw [generate_eq_derive, generate_eq_derive]
  exact deriveName_map hc 0 start "" t

end

/-- Recording the draws changes neither the result nor the state of the chooser. -/
theorem generate_recording {σ : Type} (e : Expander) (c : Chooser σ) (start : String) (s : σ)
    (draws : Array Draw) :
    Prod.map id Prod.fst (e.generate c.recording start (s, draws)) = e.generate c start s := by
  have hc : ∀ (t : σ × Array Draw) (n : Nat),
      Prod.map id Prod.fst (c.recording.pick t n) = c.pick t.1 n := fun _ _ => rfl
  exact generate_map hc start (s, draws)

/-- **The work stack refines plain recursion.**  For every grammar, start symbol, limits and
chooser both give the same result, leave the chooser in the same state and make the same draws in
the same order, where a draw is the number of alternatives and the answer before it is clamped. -/
theorem generate_refines_recursion {σ : Type} (e : Expander) (c : Chooser σ) (start : String)
    (s : σ) :
    e.generate c start s = e.derive c start s ∧
      e.generate c.recording start (s, #[]) = e.derive c.recording start (s, #[]) ∧
      Prod.map id Prod.fst (e.generate c.recording start (s, #[])) = e.generate c start s :=
  ⟨generate_eq_derive e c start s, generate_eq_derive e c.recording start (s, #[]),
    generate_recording e c start s #[]⟩

end Expander

end PageFuzz
