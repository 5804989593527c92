import Mathlib.Data.List.Induction
import Mathlib.Tactic.Common
import PageFuzz.Grammar.Draft
import PageFuzz.Proofs.Text.Words

/-!
# From a draft to its grammar

Building resolves the alternatives of each rule and adds none, so what holds of all that was
declared holds of all that a grammar has.

* `declared_of_mem`            every alternative of a draft was declared under its name;
* `build_of_sound`             a draft without a fault is built;
* `sound_of_declarations`      no fault in the notation but an invalid name;
* `alternatives_of_build`      every alternative of a grammar is one of its draft;
* `inNotation_of_build`        what is declared in the notation alone has only sequences, and only
                               words in them.
-/

namespace PageFuzz

namespace Draft

theorem names_extendRules (name : String) (new : List Pending)
    (rules : List (String × List Pending)) :
    (extendRules name new rules).map Prod.fst =
      if name ∈ rules.map Prod.fst then rules.map Prod.fst else rules.map Prod.fst ++ [name] := by
  induction rules with
  | nil => rfl
  | cons r rules ih =>
    obtain ⟨n, old⟩ := r
    unfold extendRules
    by_cases h : n = name
    · rw [if_pos h, if_pos (by simp [h])]
      rfl
    · have hne : name ≠ n := Ne.symm h
      rw [if_neg h, List.map_cons, ih, List.map_cons]
      by_cases hmem : name ∈ rules.map Prod.fst
      · rw [if_pos hmem, if_pos (List.mem_cons_of_mem _ hmem)]
      · rw [if_neg hmem, if_neg (by simpa [hne] using hmem), List.cons_append]

/-- a new name comes last, with its alternatives alone -/
theorem extendRules_of_not_mem {name : String} (new : List Pending)
    {rules : List (String × List Pending)} (h : name ∉ rules.map Prod.fst) :
    extendRules name new rules = rules ++ [(name, new)] := by
  induction rules with
  | nil => rfl
  | cons r rules ih =>
    obtain ⟨n, old⟩ := r
    rw [List.map_cons, List.mem_cons, not_or] at h
    rw [extendRules, if_neg (Ne.symm h.1), ih h.2, List.cons_append]

/-- An alternative of a rule is new at the name that was extended, or was there before. -/
theorem mem_extendRules {name : String} {new : List Pending} {rules : List (String × List Pending)}
    {r : String × List Pending} {p : Pending} (hr : r ∈ extendRules name new rules) (hp : p ∈ r.2) :
    r.1 = name ∧ p ∈ new ∨ ∃ old ∈ rules, old.1 = r.1 ∧ p ∈ old.2 := by
  induction rules with
  | nil =>
    rw [List.mem_singleton.mp hr] at hp ⊢
    exact .inl ⟨rfl, hp⟩
  | cons first rules ih =>
    obtain ⟨n, old⟩ := first
    unfold extendRules at hr
    split at hr
    · next hn =>
      rcases List.mem_cons.mp hr with rfl | hr
      · rcases List.mem_append.mp hp with hp | hp
        · exact .inr ⟨(n, old), List.mem_cons_self, rfl, hp⟩
        · exact .inl ⟨hn, hp⟩
      · exact .inr ⟨r, List.mem_cons_of_mem _ hr, rfl, hp⟩
    · rcases List.mem_cons.mp hr with rfl | hr
      · exact .inr ⟨(n, old), List.mem_cons_self, rfl, hp⟩
      · rcases ih hr with hnew | ⟨r', hr', hold⟩
        · exact .inl hnew
        · exact .inr ⟨r', List.mem_cons_of_mem _ hr', hold⟩

/-- The last declaration extends the rules of those before it. -/
theorem rules_concat (decls : List Declaration) (last : Declaration) :
    (ofDeclarations (decls ++ [last])).rules =
      extendRules last.name last.pending (ofDeclarations decls).rules := by
  rw [ofDeclarations_append]
  rfl

theorem lookup_extendRules (name : String) (new : List Pending)
    (rules : List (String × List Pending)) (n : String) :
    ((extendRules name new rules).lookup n).getD [] =
      (rules.lookup n).getD [] ++ if n = name then new else [] := by
  induction rules with
  | nil =>
    rw [extendRules, List.lookup_cons, List.lookup_nil]
    by_cases hn : n = name
    · rw [if_pos hn, beq_iff_eq.mpr hn]
      rfl
    · rw [if_neg hn, beq_false_of_ne hn]
      rfl
  | cons r rules ih =>
    obtain ⟨first, old⟩ := r
    unfold extendRules
    by_cases hn : n = first
    · subst hn
      by_cases hfirst : n = name
      · rw [if_pos hfirst, if_pos hfirst, List.lookup_cons, List.lookup_cons, BEq.rfl]
        rfl
      · rw [if_neg hfirst, if_neg hfirst, List.append_nil, List.lookup_cons, List.lookup_cons,
          BEq.rfl]
    · rw [List.lookup_cons, beq_false_of_ne hn]
      split
      · next hfirst =>
        have hne : n ≠ name := fun heq => hn (heq.trans hfirst.symm)
        rw [if_neg hne, List.append_nil, List.lookup_cons, beq_false_of_ne hn]
      · rw [List.lookup_cons, beq_false_of_ne hn]
        exact ih

/-- The alternatives of a rule are those that were declared under its name, in order. -/
theorem lookup_ofDeclarations (decls : List Declaration) (name : String) :
    ((ofDeclarations decls).rules.lookup name).getD [] =
      (decls.filter (·.name == name)).flatMap Declaration.pending := by
  induction decls using List.reverseRecOn with
  | nil => rfl
  | append_singleton decls last ih =>
    rw [rules_concat, lookup_extendRules, ih, List.filter_append, List.flatMap_append]
    rw [List.filter_cons, List.filter_nil]
    by_cases hlast : name = last.name
    · rw [if_pos hlast, if_pos (beq_iff_eq.mpr hlast.symm), List.flatMap_singleton]
    · rw [if_neg hlast, if_neg (mt beq_iff_eq.mp (Ne.symm hlast)), List.flatMap_nil]

/-- Every alternative of a rule was declared under its name. -/
theorem declared_of_mem {decls : List Declaration} {r : String × List Pending} {p : Pending}
    (hr : r ∈ (ofDeclarations decls).rules) (hp : p ∈ r.2) :
    ∃ decl ∈ decls, decl.name = r.1 ∧ p ∈ decl.pending := by
  induction decls using List.reverseRecOn generalizing r with
  | nil => cases hr
  | append_singleton decls last ih =>
    rw [rules_concat] at hr
    rcases mem_extendRules hr hp with ⟨hname, hp⟩ | ⟨old, hold, hname, hp⟩
    · exact ⟨last, List.mem_append_right _ List.mem_cons_self, hname.symm, hp⟩
    · obtain ⟨decl, hdecl, hn, hp⟩ := ih hold hp
      exact ⟨decl, List.mem_append_left _ hdecl, hn.trans hname, hp⟩

theorem pending_of_declarations {P : Pending → Prop} {decls : List Declaration}
    (h : ∀ decl ∈ decls, ∀ p ∈ decl.pending, P p) :
    ∀ r ∈ (ofDeclarations decls).rules, ∀ p ∈ r.2, P p := by
  intro r hr p hp
  obtain ⟨decl, hdecl, -, hp⟩ := declared_of_mem hr hp
  exact h decl hdecl p hp

theorem mem_names_of_mem {d : Draft} {r : String × List Pending} (h : r ∈ d.rules) :
    r.1 ∈ d.names := List.mem_map_of_mem h

theorem mem_names_ofDeclarations {decls : List Declaration} {name : String} :
    name ∈ (ofDeclarations decls).names ↔ ∃ decl ∈ decls, decl.name = name := by
  induction decls using List.reverseRecOn with
  | nil => simp [ofDeclarations, empty, names]
  | append_singleton decls last ih =>
    have hmem : name ∈ (ofDeclarations (decls ++ [last])).names ↔
        name ∈ (ofDeclarations decls).names ∨ name = last.name := by
      rw [names, rules_concat, names_extendRules]
      show name ∈ ite (last.name ∈ (ofDeclarations decls).names) _ _ ↔ _
      split
      · next hold =>
        constructor
        · exact .inl
        · rintro (hin | rfl)
          · exact hin
          · exact hold
      · rw [List.mem_append, List.mem_singleton]
        rfl
    rw [hmem, ih]
    constructor
    · rintro (⟨decl, hdecl, hn⟩ | rfl)
      · exact ⟨decl, List.mem_append_left _ hdecl, hn⟩
      · exact ⟨last, List.mem_append_right _ List.mem_cons_self, rfl⟩
    · rintro ⟨decl, hdecl, hn⟩
      rcases List.mem_append.mp hdecl with hold | hnew
      · exact .inl ⟨decl, hold, hn⟩
      · rw [List.mem_singleton.mp hnew] at hn
        exact .inr hn.symm

/-- Extending by some alternatives leaves no rule without one. -/
theorem extendRules_ne_nil {name : String} {new : List Pending} (hnew : new ≠ [])
    {rules : List (String × List Pending)} (hrules : ∀ r ∈ rules, r.2 ≠ []) :
    ∀ r ∈ extendRules name new rules, r.2 ≠ [] := by
  induction rules with
  | nil =>
    intro r hr
    rw [List.mem_singleton.mp hr]
    exact hnew
  | cons first rules ih =>
    obtain ⟨n, old⟩ := first
    obtain ⟨hfirst, hrest⟩ := List.forall_mem_cons.mp hrules
    unfold extendRules
    split
    · exact List.forall_mem_cons.mpr ⟨List.append_ne_nil_of_right_ne_nil old hnew, hrest⟩
    · exact List.forall_mem_cons.mpr ⟨hfirst, ih hrest⟩

theorem pending_ne_nil {decls : List Declaration} (h : ∀ decl ∈ decls, decl.pending ≠ []) :
    ∀ r ∈ (ofDeclarations decls).rules, r.2 ≠ [] := by
  induction decls using List.reverseRecOn with
  | nil => exact fun r hr => nomatch hr
  | append_singleton decls last ih =>
    rw [rules_concat]
    exact extendRules_ne_nil (h last (List.mem_append_right _ List.mem_cons_self))
      (ih fun decl hd => h decl (List.mem_append_left _ hd))

/-! ## building -/

theorem rules_of_build {d : Draft} {g : Grammar} (h : d.build = .ok g) :
    g.rules = d.rules.map fun r => (r.1, r.2.map (resolve d.names)) := by
  unfold build at h
  split at h
  · cases h
  · dsimp only at h
    split at h
    · cases h
    · cases h
      rfl

/-- the names of the rules are valid, each rule has an alternative and no reference leads
nowhere -/
structure Sound (d : Draft) : Prop where
  names_valid : ∀ name ∈ d.names, isValidName name = true
  pending_ne_nil : ∀ r ∈ d.rules, r.2 ≠ []
  references_mem : ∀ r ∈ d.rules, ∀ p ∈ r.2, ∀ name ∈ (resolve d.names p).references,
    name ∈ d.names

theorem build_of_sound {d : Draft} (h : d.Sound) :
    d.build = .ok ⟨d.rules.map fun r => (r.1, r.2.map (resolve d.names))⟩ := by
  have hrules : d.rules.findSome? ruleFault? = none := by
    refine List.findSome?_eq_none_iff.mpr fun r hr => ?_
    have hvalid := h.names_valid r.1 (mem_names_of_mem hr)
    have hsome : r.2.isEmpty = false := List.isEmpty_eq_false_iff.mpr (h.pending_ne_nil r hr)
    rw [ruleFault?, hvalid, hsome]
    rfl
  have hreferences : (d.rules.map fun r => (r.1, r.2.map (resolve d.names))).findSome?
      (referenceFault? d.names) = none := by
    refine List.findSome?_eq_none_iff.mpr fun resolved hresolved => ?_
    obtain ⟨r, hr, rfl⟩ := List.mem_map.mp hresolved
    rw [referenceFault?, Option.map_eq_none_iff, List.find?_eq_none]
    intro name hname
    obtain ⟨a, ha, hname⟩ := List.mem_flatMap.mp hname
    obtain ⟨p, hp, rfl⟩ := List.mem_map.mp ha
    have hmem := h.references_mem r hr p hp name hname
    simpa using hmem
  unfold build
  rw [hrules]
  dsimp only
  rw [hreferences]

/-- Only a draft without a fault is built. -/
theorem sound_of_build {d : Draft} {g : Grammar} (h : d.build = .ok g) : d.Sound := by
  unfold build at h
  split at h
  · cases h
  · next hrules =>
    dsimp only at h
    split at h
    · cases h
    · next hreferences =>
      rw [List.findSome?_eq_none_iff] at hrules hreferences
      have hvalid : ∀ r ∈ d.rules, isValidName r.1 = true ∧ r.2 ≠ [] := by
        intro r hr
        have hfault := hrules r hr
        unfold ruleFault? at hfault
        split at hfault
        · cases hfault
        · next hname =>
          split at hfault
          · cases hfault
          · next hsome =>
            exact ⟨by simpa using hname, fun hnil => hsome (List.isEmpty_iff.mpr hnil)⟩
      refine ⟨fun name hname => ?_, fun r hr => (hvalid r hr).2, fun r hr p hp name hname => ?_⟩
      · obtain ⟨r, hr, rfl⟩ := List.mem_map.mp hname
        exact (hvalid r hr).1
      · have hfault := hreferences _ (List.mem_map_of_mem hr)
        rw [referenceFault?, Option.map_eq_none_iff, List.find?_eq_none] at hfault
        have hall := hfault name (List.mem_flatMap.mpr ⟨_, List.mem_map_of_mem hp, hname⟩)
        simpa using hall

/-- What is declared in the notation refers to nothing but rules: any other token is a terminal. -/
theorem references_tokens (names ts : List String) :
    (resolve names (.tokens ts)).references = ts.filter names.contains := by
  show (ts.map (classify names)).filterMap Symbol.reference? = _
  induction ts with
  | nil => rfl
  | cons t ts ih =>
    rw [List.map_cons, List.filterMap_cons, ih, List.filter_cons, classify]
    cases names.contains t <;> rfl

/-- Only references that are given as such can lead nowhere, and only a rule that is given as such
can be empty. -/
theorem sound_of_declarations {decls : List Declaration}
    (hvalid : ∀ decl ∈ decls, isValidName decl.name = true)
    (hkind : ∀ name alts, .explicit name alts ∉ decls) : (ofDeclarations decls).Sound where
  names_valid name hname := by
    obtain ⟨decl, hdecl, rfl⟩ := mem_names_ofDeclarations.mp hname
    exact hvalid decl hdecl
  pending_ne_nil := by
    apply pending_ne_nil
    intro decl hdecl
    cases decl with
    | spec name text =>
      show (Notation.tokens text).map Pending.tokens ≠ []
      rw [Notation.tokens, ne_eq, List.map_eq_nil_iff, List.map_eq_nil_iff]
      exact List.splitOnP_ne_nil _ _
    | literal name text => exact List.cons_ne_nil _ _
    | explicit name alts => exact absurd hdecl (hkind name alts)
  references_mem := by
    apply pending_of_declarations
    intro decl hdecl p hp name hname
    cases decl with
    | spec rule text =>
      obtain ⟨ts, -, rfl⟩ := List.mem_map.mp hp
      rw [references_tokens] at hname
      exact List.contains_iff_mem.mp (List.mem_filter.mp hname).2
    | literal rule text =>
      obtain rfl : p = .explicit (.literal text) := List.mem_singleton.mp hp
      cases hname
    | explicit rule alts => exact absurd hdecl (hkind rule alts)

theorem alternatives_of_build {d : Draft} {g : Grammar} (h : d.build = .ok g) {name : String}
    {alts : List Alternative} (hname : g.alternatives? name = some alts) :
    ∃ r ∈ d.rules, r.1 = name ∧ alts = r.2.map (resolve d.names) := by
  have hmem : (name, alts) ∈ g.rules := Grammar.mem_of_lookup hname
  rw [rules_of_build h] at hmem
  obtain ⟨r, hr, heq⟩ := List.mem_map.mp hmem
  obtain ⟨hn, ha⟩ := Prod.mk.inj heq
  exact ⟨r, hr, hn, ha.symm⟩

end Draft

/-- All alternatives are sequences, and all terminals in them are words. -/
def Grammar.InNotation (g : Grammar) : Prop :=
  ∀ name alts, g.alternatives? name = some alts → ∀ a ∈ alts,
    ∃ syms, a = .sequence syms ∧ ∀ text, .terminal text ∈ syms → Text.IsWord text

theorem Draft.inNotation_of_build {decls : List Declaration} {g : Grammar}
    (hspecs : ∀ decl ∈ decls, ∃ name text, decl = .spec name text)
    (hbuild : (ofDeclarations decls).build = .ok g) : g.InNotation := by
  have htokens : ∀ r ∈ (ofDeclarations decls).rules, ∀ p ∈ r.2,
      ∃ ts, p = .tokens ts ∧ ∀ t ∈ ts, Text.IsWord t := by
    refine pending_of_declarations fun decl hd p hp => ?_
    obtain ⟨name, text, rfl⟩ := hspecs decl hd
    obtain ⟨ts, hts, rfl⟩ := List.mem_map.mp hp
    exact ⟨ts, rfl, fun t ht => Notation.isWord_of_mem_tokens hts ht⟩
  intro name alts hname a ha
  obtain ⟨r, hr, -, rfl⟩ := alternatives_of_build hbuild hname
  obtain ⟨p, hp, rfl⟩ := List.mem_map.mp ha
  obtain ⟨ts, rfl, hwords⟩ := htokens r hr p hp
  refine ⟨ts.map (classify (ofDeclarations decls).names), rfl, fun text hmem => ?_⟩
  obtain ⟨t, ht, hclass⟩ := List.mem_map.mp hmem
  unfold classify at hclass
  split at hclass
  · cases hclass
  · rw [← Symbol.terminal.inj hclass]
    exact hwords t ht

end PageFuzz
