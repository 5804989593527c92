import Mathlib
import PageFuzz.Proofs.Derivation.Faults

/-!
# No derivation comes to a name without alternatives

In a grammar that was built every reference leads to a rule, and every rule has an alternative.
The loop keeps this in sight: whatever is still to be read refers to rules only, so every draw is
one among the alternatives of a rule, and nothing but a limit can end the run before its time.

* `Grammar.Offers`      a draw among the alternatives of a rule, with an answer in range once it is
                        clamped;
* `Work.Resolved`       the references that are still to be read have rules;
* `resolved_step`       what one step keeps of this, and how it can end the run;
* `resolved_run`        the same of a whole run;
* `generate_resolved`   a derivation in a grammar that was built.
-/

namespace PageFuzz

/-- a limit was met, and the error names it -/
def Limits.Reported (limits : Limits) (err : ExpansionError) : Prop :=
  err = .depthExceeded limits.maxDepth ∨ err = .outputExceeded limits.maxOutput

theorem Limits.reported_of_append {limits : Limits} {text piece : String} {err : ExpansionError}
    (h : limits.append text piece = .error err) : limits.Reported err := by
  unfold append at h
  dsimp only at h
  split at h
  · cases h
    exact .inr rfl
  · cases h

/-- The draw is one among the alternatives of a rule, of which there is at least one, and its
clamped answer is the place of one of them. -/
def Grammar.Offers (g : Grammar) (d : Draw) : Prop :=
  ∃ name alts, g.alternatives? name = some alts ∧ d.count = alts.length ∧ 1 ≤ d.count ∧
    d.clamped.pick < d.count

/-- every reference that is still to be read has a rule -/
def Work.Resolved (g : Grammar) (w : Work) : Prop :=
  ∀ f ∈ w.stack.frames, ∀ name, .nonterminal name ∈ f → g.contains name = true

namespace Expander

section
variable {σ : Type} {e : Expander} {c : Chooser σ}

/-- The result of a run is a text or a limit. -/
def Proper (limits : Limits) : Except ExpansionError String → Prop
  | .ok _ => True
  | .error err => limits.Reported err

/-- what is known after one step: of the work, or of the result that the run has ended with -/
def Turn.Safe (e : Expander) : Turn → Prop
  | .done result => Proper e.limits result
  | .next w => w.Resolved e.grammar

theorem offers_push {g : Grammar} {draws : Array Draw} (hdraws : ∀ d ∈ draws, g.Offers d)
    {name : String} {a : Alternative} {alts : List Alternative}
    (hname : g.alternatives? name = some (a :: alts)) (answer : Nat) :
    ∀ d ∈ draws.push ⟨alts.length + 1, answer⟩, g.Offers d := by
  intro d hd
  rcases Array.mem_push.mp hd with hold | rfl
  · exact hdraws d hold
  · have hrange : min answer (alts.length + 1 - 1) < alts.length + 1 := by omega
    exact ⟨name, a :: alts, hname, rfl, Nat.succ_pos _, hrange⟩

/-- A name that has a rule is entered with a draw among its alternatives; what goes onto the stack
refers to rules, or a limit is met. -/
theorem resolved_enter (hclosed : e.grammar.Closed) {name : String}
    (hname : e.grammar.contains name = true) {w : Work} (hw : w.Resolved e.grammar) {s : σ}
    {draws : Array Draw} (hdraws : ∀ d ∈ draws, e.grammar.Offers d) :
    (∀ w', (e.enter c.recording name w (s, draws)).1 = .ok w' → w'.Resolved e.grammar) ∧
      (∀ err, (e.enter c.recording name w (s, draws)).1 = .error err → e.limits.Reported err) ∧
      ∀ d ∈ (e.enter c.recording name w (s, draws)).2.2, e.grammar.Offers d := by
  obtain ⟨a, alts, halts⟩ := hclosed.alternatives hname
  have hmem := clamped_mem a alts (c.pick s (alts.length + 1)).1
  have henter : e.enter c.recording name w (s, draws) =
      (e.schedule w (clamped a alts (c.pick s (alts.length + 1)).1),
        (c.pick s (alts.length + 1)).2,
        draws.push ⟨alts.length + 1, (c.pick s (alts.length + 1)).1⟩) := by
    rw [enter, halts]
    rfl
  rw [henter]
  refine ⟨?_, ?_, offers_push hdraws halts _⟩
  · intro w' hok
    cases hchosen : clamped a alts (c.pick s (alts.length + 1)).1 with
    | literal piece =>
      rw [hchosen] at hok
      dsimp only [schedule] at hok
      cases happend : e.limits.append w.text piece with
      | error err =>
        rw [happend] at hok
        cases hok
      | ok text =>
        rw [happend] at hok
        cases hok
        exact hw
    | sequence syms =>
      rw [hchosen] at hok hmem
      dsimp only [schedule] at hok
      split at hok
      · cases hok
      · cases hok
        intro f hf sub hsub
        rcases List.mem_cons.mp hf with rfl | hf
        · have hreference : sub ∈ (Alternative.sequence f).references :=
            List.mem_filterMap.mpr ⟨_, hsub, rfl⟩
          exact hclosed.references_mem name _ halts _ hmem sub hreference
        · exact hw f hf sub hsub
  · intro err herror
    cases hchosen : clamped a alts (c.pick s (alts.length + 1)).1 with
    | literal piece =>
      rw [hchosen] at herror
      dsimp only [schedule] at herror
      cases happend : e.limits.append w.text piece with
      | error err' =>
        rw [happend] at herror
        cases herror
        exact Limits.reported_of_append happend
      | ok text =>
        rw [happend] at herror
        cases herror
    | sequence syms =>
      rw [hchosen] at herror
      dsimp only [schedule] at herror
      split at herror
      · cases herror
        exact .inl rfl
      · cases herror

/-- One step keeps the references resolved, or ends the run with its text or a limit; if it draws,
the draw is one among the alternatives of a rule. -/
theorem resolved_step (hclosed : e.grammar.Closed) {w : Work} (hw : w.Resolved e.grammar) {s : σ}
    {draws : Array Draw} (hdraws : ∀ d ∈ draws, e.grammar.Offers d) :
    (e.step c.recording w (s, draws)).1.Safe e ∧
      ∀ d ∈ (e.step c.recording w (s, draws)).2.2, e.grammar.Offers d := by
  obtain ⟨⟨frames, depth, hdepth⟩, text⟩ := w
  match frames, hdepth, hw with
  | [], hdepth, hw => exact ⟨trivial, hdraws⟩
  | [] :: fs, hdepth, hw => exact ⟨fun f hf => hw f (List.mem_cons_of_mem _ hf), hdraws⟩
  | (.terminal piece :: f) :: fs, hdepth, hw =>
    have hrest : ∀ f' ∈ f :: fs, ∀ name, .nonterminal name ∈ f' →
        e.grammar.contains name = true := by
      intro f' hf' name hname
      rcases List.mem_cons.mp hf' with rfl | hf'
      · exact hw _ List.mem_cons_self name (List.mem_cons_of_mem _ hname)
      · exact hw f' (List.mem_cons_of_mem _ hf') name hname
    simp only [step]
    cases happend : e.limits.append text piece with
    | error err => exact ⟨Limits.reported_of_append happend, hdraws⟩
    | ok longer => exact ⟨hrest, hdraws⟩
  | (.nonterminal name :: f) :: fs, hdepth, hw =>
    have hname := hw _ List.mem_cons_self name List.mem_cons_self
    have hrest : Work.Resolved e.grammar ⟨⟨f :: fs, depth, hdepth⟩, text⟩ := by
      intro f' hf' sub hsub
      rcases List.mem_cons.mp hf' with rfl | hf'
      · exact hw _ List.mem_cons_self sub (List.mem_cons_of_mem _ hsub)
      · exact hw f' (List.mem_cons_of_mem _ hf') sub hsub
    obtain ⟨hok, herror, hoffers⟩ :=
      resolved_enter (c := c) hclosed hname hrest (s := s) hdraws
    simp only [step]
    cases henter : e.enter c.recording name ⟨⟨f :: fs, depth, hdepth⟩, text⟩ (s, draws) with
    | mk entered s' =>
      rw [henter] at hok herror hoffers
      cases entered with
      | error err => exact ⟨herror err rfl, hoffers⟩
      | ok w' => exact ⟨hok w' rfl, hoffers⟩

/-- A whole run ends with a text or a limit, and all its draws are among the alternatives of rules.
`remaining` falls with each step. -/
theorem resolved_run (hclosed : e.grammar.Closed) {w : Work} (hw : w.Resolved e.grammar) {s : σ}
    {draws : Array Draw} (hdraws : ∀ d ∈ draws, e.grammar.Offers d) :
    Proper e.limits (e.run c.recording w (s, draws)).1 ∧
      ∀ d ∈ (e.run c.recording w (s, draws)).2.2, e.grammar.Offers d := by
  induction hn : e.remaining w using Nat.strongRecOn generalizing w s draws with
  | ind n ih =>
    obtain ⟨hsafe, hoffers⟩ := resolved_step (c := c) hclosed hw (s := s) hdraws
    cases hstep : e.step c.recording w (s, draws) with
    | mk turn s' =>
      rw [hstep] at hsafe hoffers
      cases turn with
      | done result =>
        rw [run_of_done e c.recording hstep]
        exact ⟨hsafe, hoffers⟩
      | next w' =>
        have hless : e.remaining w' < n := hn ▸ remaining_step hstep
        rw [run_of_next e c.recording hstep]
        exact ih _ hless hsafe hoffers rfl

end

/-- **A grammar that was built does not fail a derivation from its rules.**  However the grammar was
declared, and whatever the limits and the answers of the chooser: from a name that the grammar has,
a derivation ends with a text or with one of its two limits, and every draw on the way is one among
the alternatives of a rule, of which there is at least one, so that the clamped answer is the place
of one of them.  A name that the grammar does not have is refused as undefined, by no rule in
particular, before anything is drawn. -/
theorem generate_resolved {σ : Type} {decls : List Declaration} {g : Grammar}
    (hbuild : (Draft.ofDeclarations decls).build = .ok g) (limits : Limits) (start : String)
    (c : Chooser σ) (s : σ) :
    let e : Expander := ⟨g, limits⟩
    let run := e.generate c.recording start (s, #[])
    (e.generate c start s).1 = run.1 ∧ (e.generate c start s).2 = run.2.1 ∧
      (g.contains start = true →
        ((∃ text, run.1 = .ok text) ∨ run.1 = .error (.depthExceeded limits.maxDepth) ∨
          run.1 = .error (.outputExceeded limits.maxOutput)) ∧
        ∀ d ∈ run.2.2, 1 ≤ d.count ∧ d.clamped.pick < d.count ∧
          ∃ name alts, g.alternatives? name = some alts ∧ d.count = alts.length) ∧
      (g.contains start = false →
        run = (.error (.grammar (.undefined start none)), s, #[])) := by
  intro e run
  have hplain := generate_recording e c start s #[]
  refine ⟨(congrArg Prod.fst hplain).symm, (congrArg Prod.snd hplain).symm, fun hstart => ?_,
    fun hstart => generate_of_not_contains c.recording (s, #[]) hstart⟩
  have hclosed : e.grammar.Closed := Grammar.closed_of_build hbuild
  have hnone : ∀ d ∈ (#[] : Array Draw), g.Offers d := fun d hd => absurd hd (Array.not_mem_empty d)
  have hempty : Work.Resolved g ⟨.empty, ""⟩ := fun f hf => absurd hf List.not_mem_nil
  obtain ⟨hok, herror, hoffers⟩ :=
    resolved_enter (e := e) (c := c) hclosed hstart hempty (s := s) hnone
  have hrun : Proper limits run.1 ∧ ∀ d ∈ run.2.2, g.Offers d := by
    show Proper limits (e.generate c.recording start (s, #[])).1 ∧
      ∀ d ∈ (e.generate c.recording start (s, #[])).2.2, g.Offers d
    rw [generate]
    cases henter : e.enter c.recording start ⟨.empty, ""⟩ (s, #[]) with
    | mk entered s' =>
      rw [henter] at hok herror hoffers
      cases entered with
      | error err => exact ⟨herror err rfl, hoffers⟩
      | ok w => exact resolved_run hclosed (hok w rfl) hoffers
  refine ⟨?_, fun d hd => ?_⟩
  · have hproper := hrun.1
    cases hresult : run.1 with
    | ok text => exact .inl ⟨text, rfl⟩
    | error err =>
      rw [hresult] at hproper
      rcases hproper with rfl | rfl
      · exact .inr (.inl rfl)
      · exact .inr (.inr rfl)
  · obtain ⟨name, alts, halts, hcount, hpos, hrange⟩ := hrun.2 d hd
    exact ⟨hpos, hrange, name, alts, halts, hcount⟩

/-- A rule that refers to itself, in a chooser's worst hands, and a name that has no rule. -/
theorem generate_resolved_of_loop :
    let decls : List Declaration := [.spec "s" "( s ) |", .literal "t" "s"]
    let c := Chooser.scripted 0
    let limits : Limits := { maxDepth := 2 }
    ∃ g, (Draft.ofDeclarations decls).build = .ok g ∧
      (∀ d ∈ ((Expander.mk g limits).generate c.recording "s" ([7, 0], #[])).2.2, 1 ≤ d.count) ∧
      ((Expander.mk g limits).generate c.recording "u" ([7, 0], #[])) =
        (.error (.grammar (.undefined "u" none)), [7, 0], #[]) := by
  intro decls c limits
  let g : Grammar := ⟨[
    ("s", [.sequence [.terminal "(", .nonterminal "s", .terminal ")"], .sequence []]),
    ("t", [.literal "s"])]⟩
  have hbuild : (Draft.ofDeclarations decls).build = .ok g := by cbv
  have hstart : g.contains "s" = true := by cbv
  have hmissing : g.contains "u" = false := by cbv
  obtain ⟨-, -, hsafe, -⟩ := generate_resolved hbuild limits "s" c [7, 0]
  obtain ⟨-, -, -, hrefused⟩ := generate_resolved hbuild limits "u" c [7, 0]
  exact ⟨g, hbuild, fun d hd => ((hsafe hstart).2 d hd).1, hrefused hmissing⟩

end Expander

end PageFuzz
