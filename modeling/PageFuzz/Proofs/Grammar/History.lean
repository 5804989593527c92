import Mathlib
import PageFuzz.Proofs.Grammar.Build

/-!
# What becomes of a history of declarations

A draft holds what was declared and nothing else: the names in the order of their first declaration,
and under each name its alternatives in the order of all its declarations.  So what building gives
can be said of the declarations themselves.

* `namesOf`, `under`           the names of a history, and what it has under a name;
* `rules_ofDeclarations`       the draft of a history;
* `build_ofDeclarations`       building in two passes, over the names and over the references;
* `alternatives?_of_build`     what a grammar has for a name;
* `Outcome`                    what is to become of a history;
* `build_eq_iff_outcome`       building gives that outcome and no other.
-/

namespace PageFuzz

/-- the references that are given as such; a token of the notation is not known to be one yet -/
def Pending.references : Pending → List String
  | .tokens _ => []
  | .explicit a => a.references

namespace Draft

/-- the names in the order of their first declaration -/
def namesOf (decls : List Declaration) : List String := (decls.map Declaration.name).eraseDups

/-- all that is declared under a name, in order -/
def under (decls : List Declaration) (name : String) : List Pending :=
  (decls.filter (·.name == name)).flatMap Declaration.pending

theorem mem_namesOf {decls : List Declaration} {name : String} :
    name ∈ namesOf decls ↔ ∃ decl ∈ decls, decl.name = name := by
  unfold namesOf
  rw [List.mem_eraseDups, List.mem_map]

theorem mem_namesOf_of_under {decls : List Declaration} {name : String} {i : Nat} {p : Pending}
    (h : (under decls name)[i]? = some p) : name ∈ namesOf decls := by
  obtain ⟨decl, hdecl, -⟩ := List.mem_flatMap.mp (List.mem_of_getElem? h)
  obtain ⟨hmem, heq⟩ := List.mem_filter.mp hdecl
  exact mem_namesOf.mpr ⟨decl, hmem, beq_iff_eq.mp heq⟩

theorem eraseDups_concat (names : List String) (last : String) :
    (names ++ [last]).eraseDups =
      if last ∈ names then names.eraseDups else names.eraseDups ++ [last] := by
  rw [List.eraseDups_append, List.removeAll]
  by_cases h : last ∈ names
  · simp [h]
  · simp [h, List.eraseDups_cons]

theorem namesOf_concat (decls : List Declaration) (last : Declaration) :
    namesOf (decls ++ [last]) =
      if last.name ∈ namesOf decls then namesOf decls else namesOf decls ++ [last.name] := by
  have hmem : last.name ∈ decls.map Declaration.name ↔ last.name ∈ namesOf decls :=
    List.mem_eraseDups.symm
  unfold namesOf
  rw [List.map_append, List.map_singleton, eraseDups_concat]
  exact if_congr hmem rfl rfl

theorem nodup_namesOf (decls : List Declaration) : (namesOf decls).Nodup := by
  induction decls using List.reverseRecOn with
  | nil => exact List.nodup_nil
  | append_singleton decls last ih =>
    rw [namesOf_concat]
    split
    · exact ih
    · next hnew => exact List.concat_eq_append ▸ List.Nodup.concat hnew ih

theorem names_ofDeclarations (decls : List Declaration) :
    (ofDeclarations decls).names = namesOf decls := by
  induction decls using List.reverseRecOn with
  | nil => rfl
  | append_singleton decls last ih =>
    unfold names at ih ⊢
    rw [rules_concat, names_extendRules, ih, namesOf_concat]

/-! ## the draft of a history -/

theorem lookup_of_nodup {α : Type} {rules : List (String × α)} (h : (rules.map Prod.fst).Nodup)
    {r : String × α} (hr : r ∈ rules) : rules.lookup r.1 = some r.2 := by
  induction rules with
  | nil => cases hr
  | cons first rules ih =>
    obtain ⟨hfirst, hrules⟩ := List.nodup_cons.mp h
    rw [List.lookup_cons]
    rcases List.mem_cons.mp hr with rfl | hr
    · rw [BEq.rfl]
    · have hne : r.1 ≠ first.1 := by
        intro heq
        exact hfirst (heq ▸ List.mem_map_of_mem hr)
      rw [beq_false_of_ne hne]
      exact ih hrules hr

/-- A draft has the names of its history, and under each of them what was declared there. -/
theorem rules_ofDeclarations (decls : List Declaration) :
    (ofDeclarations decls).rules = (namesOf decls).map fun name => (name, under decls name) := by
  have hnames := names_ofDeclarations decls
  have hnodup := nodup_namesOf decls
  rw [← hnames] at hnodup
  have hunder : ∀ r ∈ (ofDeclarations decls).rules, (r.1, under decls r.1) = r := by
    intro r hr
    have hlookup := lookup_ofDeclarations decls r.1
    rw [lookup_of_nodup hnodup hr] at hlookup
    exact Prod.ext rfl hlookup.symm
  rw [← hnames, names, List.map_map]
  exact (List.map_id _).symm.trans (List.map_congr_left fun r hr => (hunder r hr).symm)

/-! ## building in two passes -/

/-- the references that were given as such, each after the name of its rule -/
def referencesOf (decls : List Declaration) : List (String × String) :=
  (namesOf decls).flatMap fun name =>
    ((under decls name).flatMap Pending.references).map fun sub => (name, sub)

/-- A reference that leads nowhere was given as such: tokens refer to names only. -/
theorem find?_references_resolve (names : List String) (p : Pending) :
    (resolve names p).references.find? (!names.contains ·) =
      p.references.find? (!names.contains ·) := by
  cases p with
  | explicit a => rfl
  | tokens ts =>
    rw [references_tokens]
    show _ = none
    rw [List.find?_eq_none]
    intro sub hsub
    simpa using (List.mem_filter.mp hsub).2

theorem referenceFault?_resolve (names : List String) (name : String) (ps : List Pending) :
    referenceFault? names (name, ps.map (resolve names)) =
      (((ps.flatMap Pending.references).map fun sub => (name, sub)).find?
        fun r => !names.contains r.2).map fun r => .undefined r.2 (some r.1) := by
  have hfind : ((ps.map (resolve names)).flatMap Alternative.references).find?
      (!names.contains ·) = (ps.flatMap Pending.references).find? (!names.contains ·) := by
    rw [List.find?_flatMap, List.find?_flatMap, List.findSome?_map]
    congr 1
    funext p
    exact find?_references_resolve names p
  unfold referenceFault?
  rw [hfind, List.find?_map, Option.map_map]
  rfl

/-- The names are looked over first, and then all references that were given as such. -/
theorem build_ofDeclarations (decls : List Declaration) :
    (ofDeclarations decls).build =
      match (namesOf decls).findSome? fun name => ruleFault? (name, under decls name) with
      | some fault => .error fault
      | none =>
        match (referencesOf decls).find? fun r => !(namesOf decls).contains r.2 with
        | some r => .error (.undefined r.2 (some r.1))
        | none => .ok ⟨(namesOf decls).map fun name =>
            (name, (under decls name).map (resolve (namesOf decls)))⟩ := by
  have hfirst : (ofDeclarations decls).rules.findSome? ruleFault? =
      (namesOf decls).findSome? fun name => ruleFault? (name, under decls name) := by
    rw [rules_ofDeclarations, List.findSome?_map]
    rfl
  have hrules : ((ofDeclarations decls).rules.map fun r =>
      (r.1, r.2.map (resolve (ofDeclarations decls).names))) =
        (namesOf decls).map fun name =>
          (name, (under decls name).map (resolve (namesOf decls))) := by
    rw [names_ofDeclarations, rules_ofDeclarations, List.map_map]
    rfl
  have hsecond : ((namesOf decls).map fun name =>
      (name, (under decls name).map (resolve (namesOf decls)))).findSome?
        (referenceFault? (namesOf decls)) =
      ((referencesOf decls).find? fun r => !(namesOf decls).contains r.2).map
        fun r => .undefined r.2 (some r.1) := by
    rw [referencesOf, List.find?_flatMap, List.findSome?_map, List.map_findSome?]
    congr 1
    funext name
    exact referenceFault?_resolve (namesOf decls) name (under decls name)
  unfold build
  rw [hfirst, hrules]
  cases (namesOf decls).findSome? fun name => ruleFault? (name, under decls name) with
  | some fault => rfl
  | none =>
    dsimp only
    rw [names_ofDeclarations, hsecond]
    cases (referencesOf decls).find? fun r => !(namesOf decls).contains r.2 <;> rfl

/-! ## what a grammar has for a name -/

theorem lookup_map_self {α : Type} (f : String → α) (names : List String) (name : String) :
    (names.map fun n => (n, f n)).lookup name = if name ∈ names then some (f name) else none := by
  induction names with
  | nil => rfl
  | cons n names ih =>
    rw [List.map_cons, List.lookup_cons]
    by_cases hn : name = n
    · subst hn
      rw [BEq.rfl, if_pos List.mem_cons_self]
    · rw [beq_false_of_ne hn, ih]
      simp [hn]

/-- The alternatives of a name are what was declared under it, read by the names of the whole
history. -/
theorem alternatives?_of_build {decls : List Declaration} {g : Grammar}
    (h : (ofDeclarations decls).build = .ok g) (name : String) :
    g.alternatives? name = if name ∈ namesOf decls
      then some ((under decls name).map (resolve (namesOf decls))) else none := by
  have hrules := rules_of_build h
  rw [names_ofDeclarations, rules_ofDeclarations, List.map_map] at hrules
  unfold Grammar.alternatives?
  rw [hrules]
  exact lookup_map_self (fun n => (under decls n).map (resolve (namesOf decls))) _ name

/-! ## what is to become of a history -/

/-- a token of the notation is a reference if it is a name, and a text if not -/
inductive ReadsToken (names : List String) : String → Symbol → Prop
  | reference {t : String} (h : t ∈ names) : ReadsToken names t (.nonterminal t)
  | text {t : String} (h : t ∉ names) : ReadsToken names t (.terminal t)

/-- tokens are read one by one, and what was given with its kinds of symbols stays as it is -/
inductive Reads (names : List String) : Pending → Alternative → Prop
  | tokens {ts : List String} {syms : List Symbol} (h : List.Forall₂ (ReadsToken names) ts syms) :
      Reads names (.tokens ts) (.sequence syms)
  | explicit (a : Alternative) : Reads names (.explicit a) a

/-- a name that can be used, with an alternative -/
def Usable (decls : List Declaration) (name : String) : Prop :=
  Text.IsWord name ∧ under decls name ≠ []

/-- The first name that is empty or has a blank in it, or that has no alternative, is refused; then
the first reference that leads nowhere; and if there is neither, the grammar has the names of the
history and what was declared under them. -/
inductive Outcome (decls : List Declaration) : Except GrammarError Grammar → Prop
  | invalidName {before after : List String} {name : String}
      (hnames : namesOf decls = before ++ name :: after)
      (hbefore : ∀ n ∈ before, Usable decls n) (hname : ¬ Text.IsWord name) :
      Outcome decls (.error (.invalidName name))
  | noAlternatives {before after : List String} {name : String}
      (hnames : namesOf decls = before ++ name :: after)
      (hbefore : ∀ n ∈ before, Usable decls n) (hname : Text.IsWord name)
      (hnone : under decls name = []) : Outcome decls (.error (.noAlternatives name))
  | undefined {before after : List (String × String)} {name missing : String}
      (hnames : ∀ n ∈ namesOf decls, Usable decls n)
      (hreferences : referencesOf decls = before ++ (name, missing) :: after)
      (hbefore : ∀ r ∈ before, r.2 ∈ namesOf decls) (hmissing : missing ∉ namesOf decls) :
      Outcome decls (.error (.undefined missing (some name)))
  | built {g : Grammar} (hnames : ∀ n ∈ namesOf decls, Usable decls n)
      (hreferences : ∀ r ∈ referencesOf decls, r.2 ∈ namesOf decls)
      (hrules : List.Forall₂ (fun name r => r.1 = name ∧
        List.Forall₂ (Reads (namesOf decls)) (under decls name) r.2) (namesOf decls) g.rules) :
      Outcome decls (.ok g)

theorem readsToken_iff {names : List String} {t : String} {sym : Symbol} :
    ReadsToken names t sym ↔ classify names t = sym := by
  unfold classify
  constructor
  · intro h
    cases h with
    | reference h => simp [h]
    | text h => simp [h]
  · rintro rfl
    split
    · next h => exact .reference (by simpa using h)
    · next h => exact .text (by simpa using h)

theorem reads_iff {names : List String} {p : Pending} {a : Alternative} :
    Reads names p a ↔ resolve names p = a := by
  have htokens : ∀ {ts : List String} {syms : List Symbol},
      List.Forall₂ (ReadsToken names) ts syms ↔ ts.map (classify names) = syms := by
    intro ts syms
    have hrel : ReadsToken names = fun t sym => classify names t = sym := by
      funext t sym
      exact propext readsToken_iff
    rw [hrel, ← List.forall₂_map_left_iff, List.forall₂_eq_eq_eq]
  constructor
  · intro h
    cases h with
    | tokens h => exact congrArg Alternative.sequence (htokens.mp h)
    | explicit a => rfl
  · rintro rfl
    cases p with
    | tokens ts => exact .tokens (htokens.mpr rfl)
    | explicit a => exact .explicit a

theorem isValidName_iff {name : String} : isValidName name = true ↔ Text.IsWord name := by
  have hempty : name.isEmpty = false ↔ name.toList ≠ [] := by
    rw [Bool.eq_false_iff, ne_eq, ne_eq, String.isEmpty_iff, String.toList_eq_nil_iff]
  unfold isValidName Text.IsWord
  simp [hempty]

theorem ruleFault?_eq_none {decls : List Declaration} {name : String} :
    ruleFault? (name, under decls name) = none ↔ Usable decls name := by
  unfold ruleFault? Usable
  rw [← isValidName_iff]
  cases hname : isValidName name <;> cases hunder : under decls name <;> simp

theorem ruleFault?_eq_some {decls : List Declaration} {name : String} {fault : GrammarError} :
    ruleFault? (name, under decls name) = some fault ↔
      ¬ Text.IsWord name ∧ fault = .invalidName name ∨
      Text.IsWord name ∧ under decls name = [] ∧ fault = .noAlternatives name := by
  unfold ruleFault?
  rw [← isValidName_iff]
  cases hname : isValidName name <;> cases hunder : under decls name <;> simp [eq_comm]

theorem findSome?_ruleFault?_eq_none {decls : List Declaration} :
    ((namesOf decls).findSome? fun name => ruleFault? (name, under decls name)) = none ↔
      ∀ n ∈ namesOf decls, Usable decls n := by
  rw [List.findSome?_eq_none_iff]
  exact forall₂_congr fun n _ => ruleFault?_eq_none

/-- the first name with a fault, and the fault -/
theorem findSome?_ruleFault?_eq_some {decls : List Declaration} {fault : GrammarError} :
    ((namesOf decls).findSome? fun name => ruleFault? (name, under decls name)) = some fault ↔
      ∃ before name after, namesOf decls = before ++ name :: after ∧
        (∀ n ∈ before, Usable decls n) ∧
        (¬ Text.IsWord name ∧ fault = .invalidName name ∨
          Text.IsWord name ∧ under decls name = [] ∧ fault = .noAlternatives name) := by
  rw [List.findSome?_eq_some_iff]
  constructor
  · rintro ⟨before, name, after, hnames, hfault, hbefore⟩
    exact ⟨before, name, after, hnames, fun n hn => ruleFault?_eq_none.mp (hbefore n hn),
      ruleFault?_eq_some.mp hfault⟩
  · rintro ⟨before, name, after, hnames, hbefore, hfault⟩
    exact ⟨before, name, after, hnames, ruleFault?_eq_some.mpr hfault,
      fun n hn => ruleFault?_eq_none.mpr (hbefore n hn)⟩

/-- the rules of a grammar that reads what was declared -/
theorem forall₂_reads_iff {names : List String} {under : String → List Pending}
    {rules : List (String × List Alternative)} :
    List.Forall₂ (fun name r => r.1 = name ∧ List.Forall₂ (Reads names) (under name) r.2)
      names rules ↔ names.map (fun name => (name, (under name).map (resolve names))) = rules := by
  have hrel : (fun (name : String) (r : String × List Alternative) =>
      r.1 = name ∧ List.Forall₂ (Reads names) (under name) r.2) =
        fun name r => (name, (under name).map (resolve names)) = r := by
    have hreads : Reads names = fun p a => resolve names p = a := by
      funext p a
      exact propext reads_iff
    funext name r
    rw [hreads, ← List.forall₂_map_left_iff, List.forall₂_eq_eq_eq, Prod.ext_iff, @eq_comm _ r.1]
  rw [hrel, ← List.forall₂_map_left_iff, List.forall₂_eq_eq_eq]

theorem outcome_build (decls : List Declaration) :
    Outcome decls (ofDeclarations decls).build := by
  rw [build_ofDeclarations]
  cases hfirst : (namesOf decls).findSome? fun name => ruleFault? (name, under decls name) with
  | some fault =>
    obtain ⟨before, name, after, hnames, hbefore, ⟨hname, rfl⟩ | ⟨hname, hnone, rfl⟩⟩ :=
      findSome?_ruleFault?_eq_some.mp hfirst
    · exact .invalidName hnames hbefore hname
    · exact .noAlternatives hnames hbefore hname hnone
  | none =>
    have husable := findSome?_ruleFault?_eq_none.mp hfirst
    dsimp only
    cases hsecond : (referencesOf decls).find? fun r => !(namesOf decls).contains r.2 with
    | some r =>
      obtain ⟨hmissing, before, after, hreferences, hbefore⟩ :=
        List.find?_eq_some_iff_append.mp hsecond
      refine .undefined husable hreferences (fun r hr => ?_) ?_
      · simpa using hbefore r hr
      · simpa using hmissing
    | none =>
      refine .built husable (fun r hr => ?_) (forall₂_reads_iff.mpr rfl)
      simpa using List.find?_eq_none.mp hsecond r hr

/-- **Building gives the outcome of the history, and no other.**  The names are those of the
declarations in the order in which they first appear, and each has the alternatives of all its
declarations in order.  The first name that is empty, has a blank in it or has no alternative is
refused, as invalid rather than as empty; then the first reference given as such that is no name,
in the order of names, alternatives and symbols, with the rule that it is in; otherwise the grammar
has these names and alternatives in this order, in which a token of the notation is a reference
exactly if it is a name, declared before or after, and all that was given with its kinds of symbols
is as it was given. -/
theorem build_eq_iff_outcome (decls : List Declaration) (result : Except GrammarError Grammar) :
    (ofDeclarations decls).build = result ↔ Outcome decls result := by
  constructor
  · rintro rfl
    exact outcome_build decls
  · intro h
    rw [build_ofDeclarations]
    cases h with
    | @invalidName before after name hnames hbefore hname =>
      have hfirst := findSome?_ruleFault?_eq_some.mpr
        ⟨before, name, after, hnames, hbefore, .inl ⟨hname, rfl⟩⟩
      rw [hfirst]
    | @noAlternatives before after name hnames hbefore hname hnone =>
      have hfirst := findSome?_ruleFault?_eq_some.mpr
        ⟨before, name, after, hnames, hbefore, .inr ⟨hname, hnone, rfl⟩⟩
      rw [hfirst]
    | @undefined before after name missing hnames hreferences hbefore hmissing =>
      have hsecond : ((referencesOf decls).find? fun r => !(namesOf decls).contains r.2) =
          some (name, missing) := by
        refine List.find?_eq_some_iff_append.mpr ⟨by simpa using hmissing, before, after,
          hreferences, fun r hr => ?_⟩
        simpa using hbefore r hr
      rw [findSome?_ruleFault?_eq_none.mpr hnames, hsecond]
    | @built g hnames hreferences hrules =>
      have hsecond : ((referencesOf decls).find? fun r => !(namesOf decls).contains r.2) =
          none := by
        refine List.find?_eq_none.mpr fun r hr => ?_
        simpa using hreferences r hr
      rw [findSome?_ruleFault?_eq_none.mpr hnames, hsecond, forall₂_reads_iff.mp hrules]

end Draft

end PageFuzz
