import Mathlib.Tactic.Common
import PageFuzz.Proofs.Derivation.Language

/-!
# Grammars that differ in one literal

Two grammars with the same rules, but for one rule that is a literal and has another text in each.
Runs of both from the same state of a chooser go side by side for as long as neither fails: they ask
the same questions, and write the same but for that text.

* `Tree.marked`            the leaves, with a gap in the place of each literal of the rule;
* `Tree.count_of_balanced` how often a derivation expands a rule, from a count for each alternative;
* `abreast_of_deriveName`  the two runs, by induction on the levels of depth that are left.
-/

namespace PageFuzz

namespace Grammar
section
variable {g : Grammar}

/-! ## how often a rule was expanded, and what it wrote -/

mutual

/-- the number of nodes at a rule -/
def Tree.count (rule : String) {name : String} : Tree g name → Nat
  | .literal _ _ _ _ _ => if name = rule then 1 else 0
  | .sequence _ _ _ _ children => (if name = rule then 1 else 0) + children.count rule

def Forest.count (rule : String) {syms : List Symbol} : Forest g syms → Nat
  | .nil => 0
  | .terminal _ rest => rest.count rule
  | .nonterminal tree rest => tree.count rule + rest.count rule

end

mutual

/-- the leaves, with a gap in the place of each literal of a rule -/
def Tree.marked (rule : String) {name : String} : Tree g name → List (Option String)
  | .literal text _ _ _ _ => [if name = rule then none else some text]
  | .sequence _ _ _ _ children => children.marked rule

def Forest.marked (rule : String) {syms : List Symbol} : Forest g syms → List (Option String)
  | .nil => []
  | .terminal text rest => some text :: rest.marked rule
  | .nonterminal tree rest => tree.marked rule ++ rest.marked rule

end

/-- what a row of symbols ends with is written last -/
theorem Forest.marked_concat (rule : String) {syms : List Symbol} {text : String}
    (forest : Forest g (syms ++ [.terminal text])) :
    ∃ marks, forest.marked rule = marks ++ [some text] := by
  induction syms with
  | nil =>
    match forest with
    | .terminal _ .nil => exact ⟨[], rfl⟩
  | cons sym syms ih =>
    match sym, forest with
    | .terminal piece, .terminal _ rest =>
      obtain ⟨marks, hmarks⟩ := ih rest
      exact ⟨some piece :: marks, congrArg (some piece :: ·) hmarks⟩
    | .nonterminal name, .nonterminal tree rest =>
      obtain ⟨marks, hmarks⟩ := ih rest
      refine ⟨tree.marked rule ++ marks, ?_⟩
      unfold Forest.marked
      rw [hmarks, List.append_assoc]

/-- all gaps filled with one text -/
def fill (text : String) (marks : List (Option String)) : List String := marks.map (·.getD text)

theorem fill_append (text : String) (a b : List (Option String)) :
    fill text (a ++ b) = fill text a ++ fill text b := List.map_append

theorem fill_some (text : String) (leaves : List String) :
    fill text (leaves.map some) = leaves := by
  unfold fill
  rw [List.map_map]
  exact List.map_id leaves

/-- One gap only: what stands before it and after it is the same for every filling. -/
theorem fill_of_count_none {marks : List (Option String)} (h : marks.count none = 1) :
    ∃ before after : List String, marks = before.map some ++ none :: after.map some := by
  have full : ∀ ms : List (Option String), ms.count none = 0 →
      ∃ leaves : List String, ms = leaves.map some := by
    intro ms hms
    have hnone : none ∉ ms := List.count_eq_zero.mp hms
    refine ⟨fill "" ms, ?_⟩
    unfold fill
    rw [List.map_map]
    refine (List.map_id' ms).symm.trans (List.map_congr_left fun m hm => ?_)
    cases m with
    | none => exact absurd hm hnone
    | some leaf => rfl
  induction marks with
  | nil => cases h
  | cons m marks ih =>
    cases m with
    | none =>
      obtain ⟨after, rfl⟩ := full marks (by simpa using h)
      exact ⟨[], after, rfl⟩
    | some leaf =>
      obtain ⟨before, after, rfl⟩ := ih (by simpa using h)
      exact ⟨leaf :: before, after, rfl⟩

section
variable {rule text : String}

/-- what was chosen for a rule that has one literal only -/
theorem chosen_of_literal (hrule : g.alternatives? rule = some [.literal text])
    {alts : List Alternative} (h : g.alternatives? rule = some alts)
    (index : Fin alts.length) : alts.get index = .literal text := by
  obtain rfl : [.literal text] = alts := Option.some.inj (hrule.symm.trans h)
  have hindex : index = ⟨0, Nat.one_pos⟩ := Fin.ext (Nat.lt_one_iff.mp index.isLt)
  rw [hindex]
  rfl

mutual

theorem Tree.leaves_eq_fill (hrule : g.alternatives? rule = some [.literal text])
    {name : String} (tree : Tree g name) :
    tree.leaves = fill text (tree.marked rule) := by
  match tree with
  | .literal piece alts h index chosen =>
    unfold Tree.leaves Tree.marked
    by_cases hname : name = rule
    · rw [hname] at h
      have hpiece := chosen_of_literal hrule h index
      rw [chosen, Alternative.literal.injEq] at hpiece
      rw [if_pos hname, hpiece]
      rfl
    · rw [if_neg hname]
      rfl
  | .sequence alts h index chosen children => exact Forest.leaves_eq_fill hrule children

theorem Forest.leaves_eq_fill (hrule : g.alternatives? rule = some [.literal text])
    {syms : List Symbol} (forest : Forest g syms) :
    forest.leaves = fill text (forest.marked rule) := by
  match forest with
  | .nil => rfl
  | .terminal piece rest =>
    unfold Forest.leaves Forest.marked
    rw [Forest.leaves_eq_fill hrule rest]
    rfl
  | .nonterminal tree rest =>
    unfold Forest.leaves Forest.marked
    rw [fill_append, Tree.leaves_eq_fill hrule tree, Forest.leaves_eq_fill hrule rest]

end

mutual

theorem Tree.count_none_marked (hrule : g.alternatives? rule = some [.literal text])
    {name : String} (tree : Tree g name) :
    (tree.marked rule).count none = tree.count rule := by
  match tree with
  | .literal piece alts h index chosen =>
    unfold Tree.marked Tree.count
    by_cases hname : name = rule
    · rw [if_pos hname, if_pos hname]
      rfl
    · rw [if_neg hname, if_neg hname]
      rfl
  | .sequence alts h index chosen children =>
    -- the rule itself has no sequence
    have hname : name ≠ rule := by
      rintro rfl
      rw [chosen_of_literal hrule h index] at chosen
      cases chosen
    unfold Tree.marked Tree.count
    rw [if_neg hname, Nat.zero_add]
    exact Forest.count_none_marked hrule children

theorem Forest.count_none_marked (hrule : g.alternatives? rule = some [.literal text])
    {syms : List Symbol} (forest : Forest g syms) :
    (forest.marked rule).count none = forest.count rule := by
  match forest with
  | .nil => rfl
  | .terminal piece rest =>
    unfold Forest.marked Forest.count
    rw [List.count_cons_of_ne (Option.some_ne_none piece), Forest.count_none_marked hrule rest]
  | .nonterminal tree rest =>
    unfold Forest.marked Forest.count
    rw [List.count_append, Tree.count_none_marked hrule tree, Forest.count_none_marked hrule rest]

end

end

/-- Each alternative of a name leads to as many expansions of a rule as `load` says. -/
def Balanced (g : Grammar) (rule : String) (load : String → Nat) : Prop :=
  ∀ name alts, g.alternatives? name = some alts → ∀ a ∈ alts,
    load name = (if name = rule then 1 else 0) + (a.references.map load).sum

mutual

theorem Tree.count_of_balanced {rule : String} {load : String → Nat} (h : g.Balanced rule load)
    {name : String} (tree : Tree g name) : tree.count rule = load name := by
  match tree with
  | .literal piece alts hname index chosen =>
    have hload := h name alts hname _ (List.get_mem alts index)
    rw [chosen] at hload
    exact hload.symm
  | .sequence alts hname index chosen children =>
    have hload := h name alts hname _ (List.get_mem alts index)
    rw [chosen] at hload
    unfold Tree.count
    rw [Forest.count_of_balanced h children, hload]

theorem Forest.count_of_balanced {rule : String} {load : String → Nat} (h : g.Balanced rule load)
    {syms : List Symbol} (forest : Forest g syms) :
    forest.count rule = ((Alternative.sequence syms).references.map load).sum := by
  match forest with
  | .nil => rfl
  | .terminal piece rest =>
    unfold Forest.count
    exact Forest.count_of_balanced h rest
  | .nonterminal tree rest =>
    unfold Forest.count
    rw [Tree.count_of_balanced h tree, Forest.count_of_balanced h rest]
    rfl

end

end

/-! ## two runs side by side -/

/-- the same rules, but for the text of one literal -/
structure Twins (g g' : Grammar) (rule text text' : String) : Prop where
  left : g.alternatives? rule = some [.literal text]
  right : g'.alternatives? rule = some [.literal text']
  others : ∀ name, name ≠ rule → g.alternatives? name = g'.alternatives? name

end Grammar

namespace Expander

open Grammar

/-- Two runs over one symbol or one row of symbols, with the same nodes and with the same leaves but
for the gaps. -/
structure Abreast (limits : Limits) (p q : String) (marks : List (Option String))
    (nodes : List Draw) (t u t' u' : String) (seen seen' : Array Draw) : Prop where
  left : Wrote limits (fill p marks) nodes t u seen seen'
  right : Wrote limits (fill q marks) nodes t' u' seen seen'

namespace Abreast

variable {limits : Limits} {p q : String}

theorem nothing (t t' : String) (seen : Array Draw) :
    Abreast limits p q [] [] t t t' t' seen seen where
  left := .nothing t seen
  right := .nothing t' seen

theorem trans {marks marks' : List (Option String)} {nodes nodes' : List Draw}
    {t u v t' u' v' : String} {a b c : Array Draw}
    (h : Abreast limits p q marks nodes t u t' u' a b)
    (h' : Abreast limits p q marks' nodes' u v u' v' b c) :
    Abreast limits p q (marks ++ marks') (nodes ++ nodes') t v t' v' a c where
  left := fill_append p marks marks' ▸ h.left.trans h'.left
  right := fill_append q marks marks' ▸ h.right.trans h'.right

/-- the same piece in both, or what fills the gap -/
theorem leaf (mark : Option String) {t u t' u' : String} (seen : Array Draw)
    (h : limits.append t (mark.getD p) = .ok u) (h' : limits.append t' (mark.getD q) = .ok u') :
    Abreast limits p q [mark] [] t u t' u' seen seen where
  left := .leaf seen h
  right := .leaf seen h'

theorem draw (t t' : String) (seen : Array Draw) (d : Draw) :
    Abreast limits p q [] [d.clamped] t t t' t' seen (seen.push d) where
  left := .draw t seen d
  right := .draw t' seen d

end Abreast

section
variable {σ : Type} {g g' : Grammar} {rule p q : String} {limits : Limits} {c : Chooser σ}

/-- Two runs over one row of symbols, if those over each reference in it stay abreast. -/
theorem abreast_of_deriveSequence
    {sub sub' : String → String → σ × Array Draw → Except ExpansionError String × (σ × Array Draw)}
    (hsub : ∀ {name t u t' u' s s₁ s₂}, sub name t s = (.ok u, s₁) → sub' name t' s = (.ok u', s₂) →
      s₁ = s₂ ∧ ∃ (x : Tree g name) (y : Tree g' name), x.marked rule = y.marked rule ∧
        x.draws = y.draws ∧ Abreast limits p q (x.marked rule) x.draws t u t' u' s.2 s₁.2)
    {syms : List Symbol} {t u t' u' : String} {s s₁ s₂ : σ × Array Draw}
    (h : deriveSequence limits sub syms t s = (.ok u, s₁))
    (h' : deriveSequence limits sub' syms t' s = (.ok u', s₂)) :
    s₁ = s₂ ∧ ∃ (x : Forest g syms) (y : Forest g' syms), x.marked rule = y.marked rule ∧
      x.draws = y.draws ∧ Abreast limits p q (x.marked rule) x.draws t u t' u' s.2 s₁.2 := by
  induction syms generalizing t t' s with
  | nil =>
    cases h
    cases h'
    exact ⟨rfl, .nil, .nil, rfl, rfl, .nothing _ _ _⟩
  | cons sym syms ih =>
    cases sym with
    | terminal piece =>
      rw [deriveSequence_terminal] at h h'
      obtain ⟨v, s, hpiece, hrest⟩ := andThen_eq_ok h
      obtain ⟨v', s', hpiece', hrest'⟩ := andThen_eq_ok h'
      obtain ⟨happend, rfl⟩ := Prod.mk.inj hpiece
      obtain ⟨happend', rfl⟩ := Prod.mk.inj hpiece'
      obtain ⟨hs, x, y, hmarks, hdraws, hmore⟩ := ih hrest hrest'
      refine ⟨hs, .terminal piece x, .terminal piece y, ?_, hdraws, ?_⟩
      · exact congrArg (some piece :: ·) hmarks
      · exact (Abreast.leaf (some piece) _ happend happend').trans hmore
    | nonterminal name =>
      rw [deriveSequence_nonterminal] at h h'
      obtain ⟨v, s, hname, hrest⟩ := andThen_eq_ok h
      obtain ⟨v', s', hname', hrest'⟩ := andThen_eq_ok h'
      obtain ⟨rfl, x, y, hmarks, hdraws, hfirst⟩ := hsub hname hname'
      obtain ⟨hs, xs, ys, hmarks', hdraws', hmore⟩ := ih hrest hrest'
      refine ⟨hs, .nonterminal x xs, .nonterminal y ys, ?_, ?_, hfirst.trans hmore⟩
      · exact congrArg₂ (· ++ ·) hmarks hmarks'
      · exact congrArg₂ (· ++ ·) hdraws hdraws'

/-- The gap: one question with one answer, and then the text of each. -/
theorem abreast_at_gap (htwins : Twins g g' rule p q) {depth : Nat} {t u t' u' : String}
    {s s₁ s₂ : σ × Array Draw}
    (h : (Expander.mk g limits).deriveName c.recording depth rule t s = (.ok u, s₁))
    (h' : (Expander.mk g' limits).deriveName c.recording depth rule t' s = (.ok u', s₂)) :
    s₁ = s₂ ∧ ∃ (x : Tree g rule) (y : Tree g' rule), x.marked rule = y.marked rule ∧
      x.draws = y.draws ∧ Abreast limits p q (x.marked rule) x.draws t u t' u' s.2 s₁.2 := by
  have honly : ∀ answer text, clamped (.literal text) [] answer = .literal text :=
    fun answer text => List.mem_singleton.mp (clamped_mem (.literal text) [] answer)
  rw [deriveName_of_alternatives _ _ htwins.left, honly, deriveAlternative] at h
  rw [deriveName_of_alternatives _ _ htwins.right, honly, deriveAlternative] at h'
  obtain ⟨happend, rfl⟩ := Prod.mk.inj h
  obtain ⟨happend', rfl⟩ := Prod.mk.inj h'
  let x : Tree g rule := .literal p _ htwins.left ⟨0, Nat.one_pos⟩ rfl
  let y : Tree g' rule := .literal q _ htwins.right ⟨0, Nat.one_pos⟩ rfl
  have hx : x.marked rule = [none] := congrArg (fun m => [m]) (if_pos rfl)
  have hy : y.marked rule = [none] := congrArg (fun m => [m]) (if_pos rfl)
  have hdraw : (Draw.mk 1 (c.pick s.1 1).1).clamped = ⟨1, 0⟩ :=
    congrArg (Draw.mk 1) (Nat.min_zero _)
  refine ⟨rfl, x, y, hx.trans hy.symm, rfl, ?_⟩
  rw [hx]
  exact (hdraw ▸ Abreast.draw t t' s.2 _).trans (.leaf none _ happend happend')

/-- Two runs of twins over one name from the same state of a chooser. -/
theorem abreast_of_deriveName (htwins : Twins g g' rule p q) {depth : Nat}
    {name t u t' u' : String} {s s₁ s₂ : σ × Array Draw}
    (h : (Expander.mk g limits).deriveName c.recording depth name t s = (.ok u, s₁))
    (h' : (Expander.mk g' limits).deriveName c.recording depth name t' s = (.ok u', s₂)) :
    s₁ = s₂ ∧ ∃ (x : Tree g name) (y : Tree g' name), x.marked rule = y.marked rule ∧
      x.draws = y.draws ∧ Abreast limits p q (x.marked rule) x.draws t u t' u' s.2 s₁.2 := by
  induction hn : limits.maxDepth - depth using Nat.strongRecOn
    generalizing depth name t u t' u' s s₁ s₂ with
  | ind n ih =>
    by_cases hname : name = rule
    · subst hname
      exact abreast_at_gap htwins h h'
    · by_cases hg : ∃ a alts, g.alternatives? name = some (a :: alts)
      · obtain ⟨a, alts, hg⟩ := hg
        have hg' : g'.alternatives? name = some (a :: alts) := htwins.others name hname ▸ hg
        rw [deriveName_of_alternatives _ _ hg] at h
        rw [deriveName_of_alternatives _ _ hg'] at h'
        -- the place that the answer names, in both
        let answer := (c.pick s.1 (alts.length + 1)).1
        let index : Fin (a :: alts).length :=
          ⟨min answer alts.length, by rw [List.length_cons]; omega⟩
        have hdraw : Abreast limits p q [] [⟨(a :: alts).length, index⟩] t t t' t' s.2
            (s.2.push ⟨alts.length + 1, answer⟩) :=
          Abreast.draw t t' s.2 ⟨alts.length + 1, answer⟩
        cases hchosen : clamped a alts (c.recording.pick s (alts.length + 1)).1 with
        | literal piece =>
          rw [hchosen, deriveAlternative] at h h'
          obtain ⟨happend, rfl⟩ := Prod.mk.inj h
          obtain ⟨happend', rfl⟩ := Prod.mk.inj h'
          let x : Tree g name := .literal piece (a :: alts) hg index hchosen
          have hx : x.marked rule = [some piece] := congrArg (fun m => [m]) (if_neg hname)
          refine ⟨rfl, x, .literal piece (a :: alts) hg' index hchosen, rfl, rfl, ?_⟩
          rw [hx]
          exact hdraw.trans (.leaf (some piece) _ happend happend')
        | sequence syms =>
          rw [hchosen, deriveAlternative] at h h'
          by_cases hd : limits.maxDepth ≤ depth
          · rw [if_pos hd] at h
            cases h
          · rw [if_neg hd] at h h'
            obtain ⟨hs, x, y, hmarks, hdraws, hmore⟩ := abreast_of_deriveSequence
              (fun hx hy => ih (n - 1) (by omega) hx hy (by omega)) h h'
            refine ⟨hs, .sequence (a :: alts) hg index hchosen x,
              .sequence (a :: alts) hg' index hchosen y, hmarks, ?_, hdraw.trans hmore⟩
            exact congrArg (Draw.mk (a :: alts).length index :: ·) hdraws
      · have hnone : ∀ a alts, g.alternatives? name ≠ some (a :: alts) :=
          fun a alts ha => hg ⟨a, alts, ha⟩
        rw [deriveName_of_no_alternatives _ _ hnone] at h
        cases h

end

end Expander

end PageFuzz
