import Mathlib
import PageFuzz.Derivation.Loop
import PageFuzz.Proofs.Derivation.Refinement

/-!
# How long a derivation can be

However a grammar refers to itself and whatever a chooser answers, a derivation ends.

* `turn_round`          going round the loop is a step of `Expander.step`, with whole sequences and
                        places in them for what is left of them;
* `Reading.Within`      what holds of the loop at any time;
* `rounds_cases`        each round takes something off what remains, so the loop comes to an end;
* `draws_deriveName`    the draws are at most the nodes of a full tree;
* `generate_bounded`    the bounds together.
-/

namespace PageFuzz

/-! ## places in sequences -/

def Frame.rest (f : Frame) : List Symbol := f.symbols.drop f.next

/-- what is left of the sequences -/
def Reading.work (r : Reading) : Work := ⟨.ofFrames (r.frames.map Frame.rest), r.text⟩

theorem Frame.rest_of_none {f : Frame} (h : f.symbols[f.next]? = none) : f.rest = [] :=
  List.drop_eq_nil_of_le (List.getElem?_eq_none_iff.mp h)

theorem Frame.rest_of_some {f : Frame} {sym : Symbol} (h : f.symbols[f.next]? = some sym) :
    f.rest = sym :: ({ f with next := f.next + 1 } : Frame).rest := by
  obtain ⟨hlt, hsym⟩ := List.getElem?_eq_some_iff.mp h
  unfold Frame.rest
  rw [List.drop_eq_getElem_cons hlt, hsym]

/-- what holds of the loop at any time -/
structure Reading.Within (limits : Limits) (r : Reading) : Prop where
  height_le : r.frames.length ≤ limits.maxDepth
  next_le : ∀ f ∈ r.frames, f.next ≤ f.symbols.length
  size_le : r.text.utf8ByteSize ≤ limits.maxOutput

namespace Expander

def Round.turn : Round → Turn
  | .done result => .done result
  | .next r => .next r.work

section
variable {σ : Type} (e : Expander) (c : Chooser σ)

theorem work_emit (piece : String) (r : Reading) :
    (e.emit piece r).map Reading.work =
      (e.limits.append r.text piece).map fun text => { r.work with text } := by
  unfold emit
  cases e.limits.append r.text piece <;> rfl

theorem work_visit (name : String) (r : Reading) (s : σ) :
    (e.visit c name r s).map (Except.map Reading.work) id = e.enter c name r.work s := by
  unfold visit enter
  cases halts : e.grammar.alternatives? name with
  | none => rfl
  | some alts =>
    cases alts with
    | nil => rfl
    | cons a alts =>
      have hdepth : r.work.stack.depth = r.frames.length := List.length_map Frame.rest
      dsimp only
      cases clamped a alts (c.pick s (alts.length + 1)).1 with
      | literal piece =>
        show ((e.emit piece r).map Reading.work, _) = _
        rw [work_emit]
        rfl
      | sequence symbols =>
        dsimp only [schedule]
        rw [hdepth]
        split
        · rfl
        · rfl

theorem turn_round (r : Reading) (s : σ) :
    (e.round c r s).map Round.turn id = e.step c r.work s := by
  obtain ⟨frames, text⟩ := r
  match frames with
  | [] => rfl
  | f :: fs =>
    have hwork : Reading.work ⟨f :: fs, text⟩ =
        ⟨.ofFrames (f.rest :: fs.map Frame.rest), text⟩ := rfl
    rw [hwork]
    unfold round
    dsimp only
    split
    · next hnone =>
      rw [Frame.rest_of_none hnone]
      rfl
    · next piece hsome =>
      rw [Frame.rest_of_some hsome]
      simp only [emit, step, Stack.ofFrames]
      cases e.limits.append text piece <;> rfl
    · next name hsome =>
      rw [Frame.rest_of_some hsome]
      let onward : Reading := ⟨{ f with next := f.next + 1 } :: fs, text⟩
      have henter : e.enter c name ⟨.ofFrames (onward.frames.map Frame.rest), text⟩ s =
          (e.visit c name onward s).map (Except.map Reading.work) id :=
        (work_visit e c name onward s).symm
      simp only [onward, List.map_cons, Stack.ofFrames, List.length_cons] at henter
      simp only [step, Stack.ofFrames, List.length_cons]
      rw [henter]
      obtain ⟨_ | _, _⟩ := e.visit c name onward s <;> rfl

end

/-! ## at any time -/

section
variable {σ : Type} {e : Expander} {c : Chooser σ} {r r' : Reading} {s s' : σ}

theorem within_emit {piece : String} (h : r.Within e.limits) (hr : e.emit piece r = .ok r') :
    r'.Within e.limits := by
  unfold emit at hr
  cases happend : e.limits.append r.text piece with
  | error err =>
    rw [happend] at hr
    cases hr
  | ok text =>
    rw [happend] at hr
    cases hr
    exact ⟨h.height_le, h.next_le, (Limits.append_eq_ok happend).2⟩

theorem within_visit {name : String} (h : r.Within e.limits)
    (hr : e.visit c name r s = (.ok r', s')) : r'.Within e.limits := by
  unfold visit at hr
  split at hr
  · dsimp only at hr
    split at hr
    · exact within_emit h (Prod.mk.inj hr).1
    · split at hr
      · cases hr
      · next symbols _ hroom =>
        cases hr
        refine ⟨Nat.lt_of_not_le hroom, fun f hf => ?_, h.size_le⟩
        rcases List.mem_cons.mp hf with rfl | hf
        · exact Nat.zero_le _
        · exact h.next_le f hf
  · cases hr

theorem ofExcept_eq_next {x : Except ExpansionError Reading} (h : Round.ofExcept x = .next r) :
    x = .ok r := by
  cases x with
  | error err => cases h
  | ok r' =>
    cases h
    rfl

theorem within_round (h : r.Within e.limits) (hr : e.round c r s = (.next r', s')) :
    r'.Within e.limits := by
  obtain ⟨frames, text⟩ := r
  match frames with
  | [] => cases hr
  | f :: fs =>
    have hfs : ∀ f' ∈ fs, f'.next ≤ f'.symbols.length :=
      fun f' hf' => h.next_le f' (List.mem_cons_of_mem _ hf')
    -- a sequence is read on only at a place inside it
    have honward : ∀ {sym : Symbol}, f.symbols[f.next]? = some sym →
        Reading.Within e.limits ⟨{ f with next := f.next + 1 } :: fs, text⟩ := by
      intro sym hsym
      obtain ⟨hlt, -⟩ := List.getElem?_eq_some_iff.mp hsym
      refine ⟨h.height_le, fun f' hf' => ?_, h.size_le⟩
      rcases List.mem_cons.mp hf' with rfl | hf'
      · exact hlt
      · exact hfs f' hf'
    unfold round at hr
    dsimp only at hr
    split at hr
    · cases hr
      exact ⟨Nat.le_of_succ_le h.height_le, hfs, h.size_le⟩
    · next piece hsym =>
      exact within_emit (honward hsym) (ofExcept_eq_next (Prod.mk.inj hr).1)
    · next name hsym =>
      obtain ⟨hnext, hs⟩ := Prod.mk.inj hr
      exact within_visit (honward hsym) (Prod.ext (ofExcept_eq_next hnext) hs)

theorem within_rounds {start : String} {n : Nat} (h : e.rounds c start s n = (.next r, s')) :
    r.Within e.limits := by
  induction n generalizing r s' with
  | zero =>
    obtain ⟨hnext, hs⟩ := Prod.mk.inj h
    have hempty : Reading.Within e.limits ⟨[], ""⟩ :=
      ⟨Nat.zero_le _, nofun, Nat.zero_le _⟩
    exact within_visit hempty (Prod.ext (ofExcept_eq_next hnext) hs)
  | succ n ih =>
    unfold rounds at h
    split at h
    · next r₀ s₀ hprior => exact within_round (ih hprior) h
    · next hended => exact absurd h (hended r s')

end

/-! ## the end of the loop -/

section
variable {σ : Type} (e : Expander) (c : Chooser σ) (start : String) (s : σ)

theorem remaining_enter {e : Expander} {c : Chooser σ} {start : String} {s s' : σ} {w : Work}
    (h : e.enter c start ⟨.empty, ""⟩ s = (.ok w, s')) :
    e.remaining w < (e.grammar.width + 2) ^ e.limits.maxDepth := by
  rcases enter_stack h with hstack | ⟨f, hf, hroom, hstack⟩
  · unfold remaining
    rw [hstack]
    exact Nat.pow_pos (Nat.succ_pos _)
  · obtain ⟨levels, hlevels⟩ : ∃ levels, e.limits.maxDepth = levels + 1 :=
      Nat.exists_eq_succ_of_ne_zero (Nat.ne_of_gt hroom)
    unfold remaining
    rw [hstack, hlevels]
    show (f.length + 1) * (e.grammar.width + 2) ^ levels + 0 < (e.grammar.width + 2) ^ (levels + 1)
    rw [Nat.add_zero, Nat.pow_succ']
    exact Nat.mul_lt_mul_of_pos_right (by omega) (Nat.pow_pos (Nat.succ_pos _))

/-- After any number of rounds the loop has ended as `generate` does, or the rest of the run is that
of `generate` and so much less remains. -/
theorem rounds_cases (n : Nat) :
    (∃ result s', e.rounds c start s n = (.done result, s') ∧
        e.generate c start s = (result, s')) ∨
      ∃ r s', e.rounds c start s n = (.next r, s') ∧ e.generate c start s = e.run c r.work s' ∧
        e.remaining r.work + n < (e.grammar.width + 2) ^ e.limits.maxDepth := by
  induction n with
  | zero =>
    have hvisit := work_visit e c start ⟨[], ""⟩ s
    have hempty : Reading.work ⟨[], ""⟩ = ⟨.empty, ""⟩ := rfl
    rw [hempty] at hvisit
    unfold rounds generate
    cases hv : e.visit c start ⟨[], ""⟩ s with
    | mk entered s' =>
      rw [hv] at hvisit
      cases entered with
      | error err =>
        rw [← hvisit]
        exact .inl ⟨.error err, s', rfl, rfl⟩
      | ok r =>
        rw [← hvisit]
        exact .inr ⟨r, s', rfl, rfl, remaining_enter hvisit.symm⟩
  | succ n ih =>
    unfold rounds
    rcases ih with ⟨result, s', hended, hgenerate⟩ | ⟨r, s', hgoes, hgenerate, hremaining⟩
    · rw [hended]
      exact .inl ⟨result, s', rfl, hgenerate⟩
    · rw [hgoes]
      dsimp only
      have hstep := turn_round e c r s'
      cases hround : e.round c r s' with
      | mk turn s'' =>
        rw [hround] at hstep
        cases turn with
        | done result =>
          rw [hgenerate, run_of_done e c hstep.symm]
          exact .inl ⟨result, s'', rfl, rfl⟩
        | next r' =>
          have hless : e.remaining r'.work < e.remaining r.work := remaining_step hstep.symm
          rw [hgenerate, run_of_next e c hstep.symm]
          exact .inr ⟨r', s'', rfl, rfl, by omega⟩

theorem rounds_eq_generate :
    e.rounds c start s ((e.grammar.width + 2) ^ e.limits.maxDepth) =
      (.done (e.generate c start s).1, (e.generate c start s).2) := by
  rcases rounds_cases e c start s ((e.grammar.width + 2) ^ e.limits.maxDepth) with
    ⟨result, s', hended, hgenerate⟩ | ⟨r, s', -, -, hremaining⟩
  · rw [hended, hgenerate]
  · omega

end

end Expander

/-! ## the number of draws -/

/-- the most references in one alternative -/
def Grammar.branching (g : Grammar) : Nat :=
  (g.rules.flatMap fun r => r.2.map (·.references.length)).foldr max 0

theorem Grammar.length_references_le {g : Grammar} {name : String} {alts : List Alternative}
    {a : Alternative} (h : g.alternatives? name = some alts) (ha : a ∈ alts) :
    a.references.length ≤ g.branching :=
  le_foldr_max (List.mem_flatMap.mpr ⟨_, mem_of_lookup h, List.mem_map.mpr ⟨a, ha, rfl⟩⟩)

/-- the nodes of a full tree of so many levels below its root -/
def fullTree (branching levels : Nat) : Nat := ∑ i ∈ Finset.range (levels + 1), branching ^ i

theorem fullTree_succ (branching levels : Nat) :
    fullTree branching (levels + 1) = 1 + branching * fullTree branching levels := by
  unfold fullTree
  rw [geom_sum_succ, Nat.add_comm]

namespace Expander
section
variable {σ : Type} {e : Expander} {c : Chooser σ}

theorem draws_andThen {r : Except ExpansionError String × (σ × Array Draw)}
    {k : String → σ × Array Draw → Except ExpansionError String × (σ × Array Draw)} {n m : Nat}
    (hr : r.2.2.size ≤ n) (hk : ∀ text s, (k text s).2.2.size ≤ s.2.size + m) :
    (andThen r k).2.2.size ≤ n + m := by
  obtain ⟨err | text, s⟩ := r
  · exact Nat.le_add_right_of_le hr
  · exact Nat.le_trans (hk text s) (Nat.add_le_add_right hr m)

theorem draws_deriveSequence {limits : Limits} {each : Nat}
    {sub : String → String → σ × Array Draw → Except ExpansionError String × (σ × Array Draw)}
    (hsub : ∀ name text s, (sub name text s).2.2.size ≤ s.2.size + each) (syms : List Symbol)
    (text : String) (s : σ × Array Draw) :
    (deriveSequence limits sub syms text s).2.2.size ≤
      s.2.size + (Alternative.sequence syms).references.length * each := by
  induction syms generalizing text s with
  | nil => exact Nat.le_add_right _ _
  | cons sym syms ih =>
    cases sym with
    | terminal piece =>
      rw [deriveSequence_terminal]
      exact draws_andThen (Nat.le_refl _) ih
    | nonterminal name =>
      rw [deriveSequence_nonterminal]
      have hreferences : (Alternative.sequence (.nonterminal name :: syms)).references.length =
          (Alternative.sequence syms).references.length + 1 := rfl
      have h := draws_andThen (hsub name text s) ih
      rw [hreferences, Nat.succ_mul]
      omega

theorem draws_deriveAlternative {depth each : Nat}
    (hdeeper : depth < e.limits.maxDepth → ∀ name text s,
      (e.deriveName c.recording (depth + 1) name text s).2.2.size ≤ s.2.size + each)
    (text : String) (s : σ × Array Draw) (a : Alternative) :
    (e.deriveAlternative c.recording depth text s a).2.2.size ≤
      s.2.size + a.references.length * each := by
  cases a with
  | literal piece => exact Nat.le_add_right _ _
  | sequence syms =>
    rw [deriveAlternative]
    split
    · exact Nat.le_add_right _ _
    · next hroom => exact draws_deriveSequence (hdeeper (Nat.lt_of_not_le hroom)) syms text s

/-- One draw for the name, and so many for each reference of the alternative that was taken. -/
theorem draws_of_deeper {depth each : Nat}
    (hdeeper : depth < e.limits.maxDepth → ∀ name text s,
      (e.deriveName c.recording (depth + 1) name text s).2.2.size ≤ s.2.size + each)
    (name text : String) (s : σ × Array Draw) :
    (e.deriveName c.recording depth name text s).2.2.size ≤
      s.2.size + (1 + e.grammar.branching * each) := by
  by_cases hg : ∃ a alts, e.grammar.alternatives? name = some (a :: alts)
  · obtain ⟨a, alts, hg⟩ := hg
    rw [deriveName_of_alternatives e c.recording hg]
    have hreferences := Grammar.length_references_le hg
      (clamped_mem a alts (c.recording.pick s (alts.length + 1)).1)
    have hdraw : (c.recording.pick s (alts.length + 1)).2.2.size = s.2.size + 1 :=
      Array.size_push _
    have h := draws_deriveAlternative hdeeper text (c.recording.pick s (alts.length + 1)).2
      (clamped a alts (c.recording.pick s (alts.length + 1)).1)
    have hmul := Nat.mul_le_mul_right each hreferences
    omega
  · have hnone : ∀ a alts, e.grammar.alternatives? name ≠ some (a :: alts) :=
      fun a alts ha => hg ⟨a, alts, ha⟩
    rw [deriveName_of_no_alternatives e c.recording hnone]
    exact Nat.le_add_right _ _

/-- A name makes no more draws than a full tree has nodes.  The induction is on the levels of depth
that are left. -/
theorem draws_deriveName {levels depth : Nat} (hlevels : e.limits.maxDepth ≤ depth + levels)
    (name text : String) (s : σ × Array Draw) :
    (e.deriveName c.recording depth name text s).2.2.size ≤
      s.2.size + fullTree e.grammar.branching levels := by
  induction levels generalizing depth name text s with
  | zero =>
    have hbottom : fullTree e.grammar.branching 0 = 1 + e.grammar.branching * 0 := by
      simp [fullTree]
    rw [hbottom]
    exact draws_of_deeper (fun hroom => absurd hlevels (Nat.not_le.mpr hroom)) name text s
  | succ levels ih =>
    rw [fullTree_succ]
    exact draws_of_deeper (fun _ name text s => ih (by omega) name text s) name text s

end

/-- **A derivation is bounded, whatever the grammar and the choices.**  At any time what is left of
the loop is the rest of `generate`, and the loop holds at most `maxDepth` sequences, each read up to
a place inside it or to its end, and a text that is not too long.  It comes to an end, with the
result of `generate`.  The draws are at most the nodes of
the full tree of depth `maxDepth` in which every node has as many children as an alternative of the
grammar has references at most. -/
theorem generate_bounded (g : Grammar) (limits : Limits) (start : String) {σ : Type}
    (c : Chooser σ) (s : σ) :
    let e : Expander := ⟨g, limits⟩
    (∀ n r s', e.rounds c start s n = (.next r, s') →
      e.generate c start s = e.run c r.work s' ∧ r.frames.length ≤ limits.maxDepth ∧
        (∀ f ∈ r.frames, f.next ≤ f.symbols.length) ∧ r.text.utf8ByteSize ≤ limits.maxOutput) ∧
    e.rounds c start s ((g.width + 2) ^ limits.maxDepth) =
      (.done (e.generate c start s).1, (e.generate c start s).2) ∧
    (e.generate c.recording start (s, #[])).2.2.size ≤
      ∑ i ∈ Finset.range (limits.maxDepth + 1), g.branching ^ i := by
  intro e
  refine ⟨fun n r s' h => ?_, rounds_eq_generate e c start s, ?_⟩
  · obtain ⟨hheight, hnext, hsize⟩ := within_rounds h
    rcases rounds_cases e c start s n with ⟨result, s₁, hended, -⟩ | ⟨r₁, s₁, hgoes, hrun, -⟩
    · rw [h] at hended
      cases hended
    · rw [h] at hgoes
      cases hgoes
      exact ⟨hrun, hheight, hnext, hsize⟩
  · have hlevels : e.limits.maxDepth ≤ 0 + limits.maxDepth := (Nat.zero_add _).ge
    have h := draws_deriveName (c := c) hlevels start "" (s, #[])
    rw [generate_eq_derive, derive]
    rw [Array.size_empty, Nat.zero_add] at h
    exact h

end Expander
end PageFuzz
