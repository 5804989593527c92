import Mathlib.Tactic.Common
import PageFuzz.Proofs.Derivation.Refinement
import PageFuzz.Proofs.Grammar.Build

/-!
# Faults of a derivation

A grammar that was built has an alternative for every name that a derivation comes to, so all that
can go wrong below a name of the grammar is that a limit is met.

* `closed_of_build`       references lead to rules, and rules have alternatives;
* `isLimit_of_generate`   an error is that of a limit.
-/

namespace PageFuzz

namespace Grammar

/-- Every rule has an alternative, and no reference leads nowhere. -/
structure Closed (g : Grammar) : Prop where
  alternatives_ne_nil : ∀ name alts, g.alternatives? name = some alts → alts ≠ []
  references_mem : ∀ name alts, g.alternatives? name = some alts → ∀ a ∈ alts,
    ∀ sub ∈ a.references, g.contains sub = true

theorem contains_of_mem {g : Grammar} {name : String} (h : name ∈ g.names) :
    g.contains name = true := by
  obtain ⟨r, hr, rfl⟩ := List.mem_map.mp h
  unfold contains alternatives?
  rw [Option.isSome_iff_ne_none]
  intro hnone
  have hne := List.lookup_eq_none_iff.mp hnone r hr
  rw [bne_self_eq_false] at hne
  cases hne

/-- A name that a grammar has leads to its alternatives. -/
theorem Closed.alternatives {g : Grammar} (h : g.Closed) {name : String}
    (hname : g.contains name = true) : ∃ a alts, g.alternatives? name = some (a :: alts) := by
  obtain ⟨alts, halts⟩ := Option.isSome_iff_exists.mp hname
  obtain ⟨a, rest, rfl⟩ := List.exists_cons_of_ne_nil (h.alternatives_ne_nil name alts halts)
  exact ⟨a, rest, halts⟩

theorem names_of_build {d : Draft} {g : Grammar} (h : d.build = .ok g) : g.names = d.names := by
  unfold names Draft.names
  rw [Draft.rules_of_build h, List.map_map]
  rfl

theorem closed_of_build {d : Draft} {g : Grammar} (h : d.build = .ok g) : g.Closed where
  alternatives_ne_nil name alts hname hnil := by
    obtain ⟨r, hr, -, rfl⟩ := Draft.alternatives_of_build h hname
    exact (Draft.sound_of_build h).pending_ne_nil r hr (List.map_eq_nil_iff.mp hnil)
  references_mem name alts hname a ha sub hsub := by
    obtain ⟨r, hr, -, rfl⟩ := Draft.alternatives_of_build h hname
    obtain ⟨p, hp, rfl⟩ := List.mem_map.mp ha
    refine contains_of_mem ?_
    rw [names_of_build h]
    exact (Draft.sound_of_build h).references_mem r hr p hp sub hsub

end Grammar

namespace Expander

theorem isLimit_of_append {l : Limits} {text piece : String} {err : ExpansionError}
    (h : l.append text piece = .error err) : err.isLimit = true := by
  unfold Limits.append at h
  dsimp only at h
  split at h
  · cases h
    rfl
  · cases h

theorem andThen_eq_error {σ : Type} {r : Except ExpansionError String × σ}
    {k : String → σ → Except ExpansionError String × σ} {err : ExpansionError} {s' : σ}
    (h : andThen r k = (.error err, s')) :
    r = (.error err, s') ∨ ∃ u s, r = (.ok u, s) ∧ k u s = (.error err, s') := by
  obtain ⟨_ | u, s⟩ := r
  · exact .inl h
  · exact .inr ⟨u, s, rfl, h⟩

section
variable {σ : Type} {e : Expander} {c : Chooser σ}

/-- Going through a sequence meets a limit, or what its references meet. -/
theorem isLimit_of_deriveSequence {limits : Limits}
    {sub : String → String → σ → Except ExpansionError String × σ} {syms : List Symbol}
    (hsub : ∀ name ∈ (Alternative.sequence syms).references, ∀ {text s err s'},
      sub name text s = (.error err, s') → err.isLimit = true)
    {text : String} {s s' : σ} {err : ExpansionError}
    (h : deriveSequence limits sub syms text s = (.error err, s')) : err.isLimit = true := by
  induction syms generalizing text s with
  | nil => cases h
  | cons sym syms ih =>
    cases sym with
    | terminal piece =>
      rw [deriveSequence_terminal] at h
      rcases andThen_eq_error h with hpiece | ⟨u, s₁, -, hrest⟩
      · exact isLimit_of_append (Prod.mk.inj hpiece).1
      · exact ih hsub hrest
    | nonterminal name =>
      rw [deriveSequence_nonterminal] at h
      rcases andThen_eq_error h with hname | ⟨u, s₁, -, hrest⟩
      · exact hsub name List.mem_cons_self hname
      · exact ih (fun n hn => hsub n (List.mem_cons_of_mem _ hn)) hrest

/-- Below a name of a closed grammar a derivation meets nothing but limits.  The induction is on the
levels of depth that are left. -/
theorem isLimit_of_deriveName (hclosed : e.grammar.Closed) {depth : Nat} {name text : String}
    {s s' : σ} {err : ExpansionError} (hname : e.grammar.contains name = true)
    (h : e.deriveName c depth name text s = (.error err, s')) : err.isLimit = true := by
  induction hn : e.limits.maxDepth - depth using Nat.strongRecOn
    generalizing depth name text s s' err with
  | ind n ih =>
    obtain ⟨a, alts, hg⟩ := hclosed.alternatives hname
    rw [deriveName_of_alternatives e c hg] at h
    have hmem := clamped_mem a alts (c.pick s (alts.length + 1)).1
    cases hchosen : clamped a alts (c.pick s (alts.length + 1)).1 with
    | literal piece =>
      rw [hchosen, deriveAlternative] at h
      exact isLimit_of_append (Prod.mk.inj h).1
    | sequence syms =>
      rw [hchosen] at h hmem
      rw [deriveAlternative] at h
      split at h
      · cases h
        rfl
      · next hdepth =>
        refine isLimit_of_deriveSequence (fun sub hsub {_ _ _ _} hfails => ?_) h
        have hcontains := hclosed.references_mem name _ hg _ hmem sub hsub
        exact ih (n - 1) (by omega) hcontains hfails (by omega)

/-- From a start symbol that the grammar has, all that can go wrong is that a limit is met. -/
theorem isLimit_of_generate (hclosed : e.grammar.Closed) {start : String} {s s' : σ}
    {err : ExpansionError} (hstart : e.grammar.contains start = true)
    (h : e.generate c start s = (.error err, s')) : err.isLimit = true := by
  rw [generate_eq_derive, derive] at h
  exact isLimit_of_deriveName hclosed hstart h

end

end Expander

end PageFuzz
