import Mathlib
import PageFuzz.Proofs.Derivation.Refinement
import PageFuzz.Proofs.Grammar.History

/-!
# The order of declarations

Only the order of the declarations of one name matters.  Whether a history can be built is a matter
of its names and of what is declared under each of them, and so are the alternatives that a grammar
has for a name; a derivation asks a grammar for nothing else.

* `generate_congr`           grammars with the same alternatives for each name derive the same;
* `Reordered`                the same declarations for each name, in the same order;
* `build_restated`           a grammar whose rules are declared again;
* `build_of_reordered`       what does not depend on the order of names.
-/

namespace PageFuzz

/-! ## derivations -/

namespace Expander

/-- A derivation asks a grammar for the alternatives of names and for nothing else. -/
theorem deriveName_congr {σ : Type} {g g' : Grammar}
    (h : ∀ name, g.alternatives? name = g'.alternatives? name) (limits : Limits) (c : Chooser σ)
    (depth : Nat) :
    (Expander.mk g limits).deriveName c depth = (Expander.mk g' limits).deriveName c depth := by
  induction hn : limits.maxDepth - depth using Nat.strongRecOn generalizing depth with
  | ind n ih =>
    funext name text s
    by_cases hg : ∃ a alts, g.alternatives? name = some (a :: alts)
    · obtain ⟨a, alts, hg⟩ := hg
      have hg' : g'.alternatives? name = some (a :: alts) := h name ▸ hg
      rw [deriveName_of_alternatives _ _ hg, deriveName_of_alternatives _ _ hg']
      cases clamped a alts (c.pick s (alts.length + 1)).1 with
      | literal t => rfl
      | sequence syms =>
        rw [deriveAlternative, deriveAlternative]
        by_cases hd : limits.maxDepth ≤ depth
        · rw [if_pos hd, if_pos hd]
        · rw [if_neg hd, if_neg hd, ih (n - 1) (by omega) (depth + 1) (by omega)]
    · have hg' : ¬ ∃ a alts, g'.alternatives? name = some (a :: alts) := h name ▸ hg
      push Not at hg hg'
      rw [deriveName_of_no_alternatives _ _ hg, deriveName_of_no_alternatives _ _ hg']

theorem generate_congr {σ : Type} {g g' : Grammar}
    (h : ∀ name, g.alternatives? name = g'.alternatives? name) (limits : Limits) (c : Chooser σ)
    (start : String) (s : σ) :
    (Expander.mk g limits).generate c start s = (Expander.mk g' limits).generate c start s := by
  rw [generate_eq_derive, generate_eq_derive, derive, derive, deriveName_congr h]

end Expander

namespace Draft

/-! ## the same declarations in another order of names -/

/-- Histories in which each name has the same declarations, in the same order. -/
def Reordered (a b : List Declaration) : Prop :=
  ∀ name, a.filter (·.name == name) = b.filter (·.name == name)

theorem mem_rules_ofDeclarations {decls : List Declaration} {r : String × List Pending} :
    r ∈ (ofDeclarations decls).rules ↔ r.1 ∈ namesOf decls ∧ under decls r.1 = r.2 := by
  rw [rules_ofDeclarations, List.mem_map]
  constructor
  · rintro ⟨name, hname, rfl⟩
    exact ⟨hname, rfl⟩
  · rintro ⟨hname, hunder⟩
    exact ⟨r.1, hname, Prod.ext rfl hunder⟩

theorem classify_congr {names names' : List String} (h : ∀ name, name ∈ names ↔ name ∈ names') :
    classify names = classify names' := by
  funext t
  have hcontains : names.contains t = names'.contains t := by
    rw [Bool.eq_iff_iff, List.contains_iff_mem, List.contains_iff_mem]
    exact h t
  rw [classify, hcontains]
  rfl

theorem resolve_congr {names names' : List String} (h : ∀ name, name ∈ names ↔ name ∈ names') :
    resolve names = resolve names' := by
  funext p
  cases p with
  | tokens ts => exact congrArg (fun f => Alternative.sequence (ts.map f)) (classify_congr h)
  | explicit a => rfl

namespace Reordered

variable {a b : List Declaration}

theorem symm (h : Reordered a b) : Reordered b a := fun name => (h name).symm

theorem under_eq (h : Reordered a b) (name : String) : under a name = under b name :=
  congrArg (·.flatMap Declaration.pending) (h name)

theorem mem_namesOf_iff (h : Reordered a b) (name : String) :
    name ∈ namesOf a ↔ name ∈ namesOf b := by
  have hfilter : ∀ decls : List Declaration, name ∈ namesOf decls ↔
      ∃ decl, decl ∈ decls.filter (·.name == name) := by
    intro decls
    simp [mem_namesOf]
  rw [hfilter, hfilter, h name]

theorem mem_rules (h : Reordered a b) {r : String × List Pending}
    (hr : r ∈ (ofDeclarations a).rules) : r ∈ (ofDeclarations b).rules := by
  rw [mem_rules_ofDeclarations] at hr ⊢
  exact ⟨(h.mem_namesOf_iff r.1).mp hr.1, h.under_eq r.1 ▸ hr.2⟩

theorem sound (h : Reordered a b) (ha : (ofDeclarations a).Sound) : (ofDeclarations b).Sound where
  names_valid name hname := by
    rw [names_ofDeclarations, ← h.mem_namesOf_iff, ← names_ofDeclarations] at hname
    exact ha.names_valid name hname
  pending_ne_nil r hr := ha.pending_ne_nil r (h.symm.mem_rules hr)
  references_mem r hr p hp name hname := by
    rw [names_ofDeclarations, ← resolve_congr h.mem_namesOf_iff, ← names_ofDeclarations] at hname
    have hmem := ha.references_mem r (h.symm.mem_rules hr) p hp name hname
    rwa [names_ofDeclarations, h.mem_namesOf_iff, ← names_ofDeclarations] at hmem

theorem exists_build (h : Reordered a b) (ha : ∃ g, (ofDeclarations a).build = .ok g) :
    ∃ g, (ofDeclarations b).build = .ok g := by
  obtain ⟨g, hg⟩ := ha
  exact ⟨_, build_of_sound (h.sound (sound_of_build hg))⟩

theorem alternatives?_eq (h : Reordered a b) {g g' : Grammar}
    (hg : (ofDeclarations a).build = .ok g) (hg' : (ofDeclarations b).build = .ok g')
    (name : String) : g.alternatives? name = g'.alternatives? name := by
  rw [alternatives?_of_build hg, alternatives?_of_build hg', h.under_eq,
    resolve_congr h.mem_namesOf_iff]
  exact if_congr (h.mem_namesOf_iff name) rfl rfl

end Reordered

/-! ## a grammar declared again -/

/-- each rule of a grammar declared at once, with its kinds of symbols -/
def restated (g : Grammar) : List Declaration := g.rules.map fun r => .explicit r.1 r.2

/-- Rules with different names are declared as they are. -/
theorem rules_of_nodup {rules : List (String × List Alternative)}
    (h : (rules.map Prod.fst).Nodup) :
    (ofDeclarations (rules.map fun r => .explicit r.1 r.2)).rules =
      rules.map fun r => (r.1, r.2.map .explicit) := by
  induction rules using List.reverseRecOn with
  | nil => rfl
  | append_singleton rules last ih =>
    rw [List.map_append, List.nodup_append] at h
    obtain ⟨hfront, -, hapart⟩ := h
    have hnew : last.1 ∉ (rules.map fun r => (r.1, r.2.map Pending.explicit)).map Prod.fst := by
      rw [List.map_map]
      intro hmem
      exact hapart last.1 hmem last.1 List.mem_cons_self rfl
    rw [List.map_append, List.map_singleton, rules_concat, ih hfront, List.map_append]
    exact extendRules_of_not_mem _ hnew

section
variable {decls : List Declaration} {g : Grammar}

theorem rules_restated (h : (ofDeclarations decls).build = .ok g) :
    (ofDeclarations (restated g)).rules = g.rules.map fun r => (r.1, r.2.map .explicit) := by
  have hnodup : (g.rules.map Prod.fst).Nodup := by
    rw [rules_of_build h, List.map_map]
    show (ofDeclarations decls).names.Nodup
    rw [names_ofDeclarations]
    exact nodup_namesOf decls
  exact rules_of_nodup hnodup

theorem names_restated (h : (ofDeclarations decls).build = .ok g) :
    (ofDeclarations (restated g)).names = (ofDeclarations decls).names := by
  rw [names, rules_restated h, rules_of_build h, List.map_map, List.map_map]
  rfl

/-- what a rule has when it is declared again, and where that comes from -/
theorem mem_rules_restated (h : (ofDeclarations decls).build = .ok g) {r : String × List Pending}
    (hr : r ∈ (ofDeclarations (restated g)).rules) :
    ∃ first ∈ (ofDeclarations decls).rules,
      r = (first.1, first.2.map fun p => .explicit (resolve (ofDeclarations decls).names p)) := by
  rw [rules_restated h, rules_of_build h, List.map_map] at hr
  obtain ⟨first, hfirst, rfl⟩ := List.mem_map.mp hr
  refine ⟨first, hfirst, ?_⟩
  rw [Function.comp_apply, List.map_map]
  rfl

theorem sound_restated (h : (ofDeclarations decls).build = .ok g) :
    (ofDeclarations (restated g)).Sound := by
  have hsound := sound_of_build h
  constructor
  · intro name hname
    exact hsound.names_valid name (names_restated h ▸ hname)
  · intro r hr
    obtain ⟨first, hfirst, rfl⟩ := mem_rules_restated h hr
    have hne := hsound.pending_ne_nil first hfirst
    simpa using hne
  · intro r hr p hp name hname
    obtain ⟨first, hfirst, rfl⟩ := mem_rules_restated h hr
    obtain ⟨pending, hpending, rfl⟩ := List.mem_map.mp hp
    rw [names_restated h]
    exact hsound.references_mem first hfirst pending hpending name hname

/-- What is given with its kinds of symbols is built as it is. -/
theorem build_restated (h : (ofDeclarations decls).build = .ok g) :
    (ofDeclarations (restated g)).build = .ok g := by
  have hsame : (fun r : String × List Alternative =>
      (r.1, (r.2.map Pending.explicit).map (resolve (ofDeclarations (restated g)).names))) = id := by
    funext r
    rw [List.map_map]
    exact Prod.ext rfl (List.map_id r.2)
  rw [build_of_sound (sound_restated h), rules_restated h, List.map_map]
  show Except.ok (Grammar.mk (g.rules.map _)) = _
  rw [Function.comp_def, hsame, List.map_id]

end

/-- **The order of declarations across names does not matter.**  If each name has the same
declarations in the same order in two histories, then both can be built or neither can; and if they
can, both grammars have the same alternatives for every name, so that a derivation comes to the same
result from any start symbol, within any limits and with any chooser, which is asked the same and
left in the same state.  And the rules of a grammar that was built, declared again one by one, are
built into the same grammar, its rules in the same order. -/
theorem build_of_reordered :
    (∀ a b : List Declaration,
      (∀ name, a.filter (·.name == name) = b.filter (·.name == name)) →
      ((∃ g, (ofDeclarations a).build = .ok g) ↔ ∃ g, (ofDeclarations b).build = .ok g) ∧
      ∀ g g', (ofDeclarations a).build = .ok g → (ofDeclarations b).build = .ok g' →
        (∀ name, g.alternatives? name = g'.alternatives? name) ∧
        ∀ (limits : Limits) (start : String) {σ : Type} (c : Chooser σ) (s : σ),
          (Expander.mk g limits).generate c start s = (Expander.mk g' limits).generate c start s ∧
          (Expander.mk g limits).generate c.recording start (s, #[]) =
            (Expander.mk g' limits).generate c.recording start (s, #[])) ∧
    ∀ (decls : List Declaration) (g : Grammar), (ofDeclarations decls).build = .ok g →
      (ofDeclarations (g.rules.map fun r => .explicit r.1 r.2)).build = .ok g := by
  refine ⟨fun a b h => ?_, fun decls g hg => build_restated hg⟩
  have hreordered : Reordered a b := h
  refine ⟨⟨hreordered.exists_build, hreordered.symm.exists_build⟩, fun g g' hg hg' => ?_⟩
  have halternatives := hreordered.alternatives?_eq hg hg'
  refine ⟨halternatives, fun limits start σ c s => ?_⟩
  exact ⟨Expander.generate_congr halternatives limits c start s,
    Expander.generate_congr halternatives limits c.recording start (s, #[])⟩

/-- A rule that is declared before what it refers to, or after it. -/
theorem build_of_reordered_of_two :
    let a : List Declaration := [.spec "s" "( t )", .spec "t" "x", .literal "s" "t"]
    let b : List Declaration := [.spec "t" "x", .spec "s" "( t )", .literal "s" "t"]
    let s : String × List Alternative := ("s",
      [.sequence [.terminal "(", .nonterminal "t", .terminal ")"], .literal "t"])
    let t : String × List Alternative := ("t", [.sequence [.terminal "x"]])
    (∀ name, a.filter (·.name == name) = b.filter (·.name == name)) ∧
    (ofDeclarations a).build = .ok ⟨[s, t]⟩ ∧ (ofDeclarations b).build = .ok ⟨[t, s]⟩ ∧
    (∀ name, (Grammar.mk [s, t]).alternatives? name = (Grammar.mk [t, s]).alternatives? name) ∧
    (ofDeclarations [.explicit "s" s.2, .explicit "t" t.2]).build = .ok ⟨[s, t]⟩ := by
  intro a b s t
  have ha : (ofDeclarations a).build = .ok ⟨[s, t]⟩ := by cbv
  have hb : (ofDeclarations b).build = .ok ⟨[t, s]⟩ := by cbv
  have hsame : ∀ name, a.filter (·.name == name) = b.filter (·.name == name) := by
    intro name
    by_cases hs : name = "s"
    · subst hs
      rfl
    · have hne : ("s" == name) = false := beq_eq_false_iff_ne.mpr (Ne.symm hs)
      simp [a, b, Declaration.name, List.filter_cons, hne]
  obtain ⟨hreordered, hrestated⟩ := build_of_reordered
  obtain ⟨-, hgrammars⟩ := hreordered a b hsame
  obtain ⟨halternatives, -⟩ := hgrammars _ _ ha hb
  exact ⟨hsame, ha, hb, halternatives, hrestated a _ ha⟩

end Draft

end PageFuzz
