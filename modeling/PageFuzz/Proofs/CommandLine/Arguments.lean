import Mathlib
import PageFuzz.CommandLine.Matches

/-!
# What arguments say

Arguments say a row of entries: a flag, or a value by its text.  `Says` tells how entries may be
written, in any order and mixed as one likes: a value after its option or attached to it, flags by
name or by letters, positionals in between, and after `--` nothing but positionals.  Reading knows a
value long before it looks at it, but in the end it has accepted exactly the arguments that say
something, with every name at most once and every text fit for its kind.

* `Entry.Gives`      what is found in the place of an entry;
* `Takes`            taking entries one after another, and `takes_iff` what that comes to;
* `Says`             how entries are written;
* `exists_form`      an argument has one of five forms;
* `Ends`             reading to the end: `ends_of_entries` and `exists_says_of_ends`;
* `ofArguments_iff`  the matches of arguments.
-/

namespace PageFuzz.CommandLine

/-! ## entries -/

/-- one thing that arguments say -/
inductive Entry where
  | flag (name : String)
  | value (name : String) (kind : ValueKind) (text : String)
deriving DecidableEq, Repr

namespace Entry

def name : Entry → String
  | flag name => name
  | value name _ _ => name

/-- what is found in the place of an entry -/
def Gives : Entry → String × Option Value → Prop
  | flag name, given => given = (name, none)
  | value name kind text, given => ∃ v, kind.read text = .ok v ∧ given = (name, some v)

theorem Gives.name_eq {e : Entry} {given : String × Option Value} (h : e.Gives given) :
    given.1 = e.name := by
  cases e with
  | flag name => exact congrArg Prod.fst h
  | value name kind text =>
    obtain ⟨v, -, rfl⟩ := h
    rfl

end Entry

namespace Matches

variable {m m' : Matches} {e : Entry} {es fs : List Entry} {name : String}

/-- take an entry -/
def take (m : Matches) : Entry → Except Refusal Matches
  | .flag name => m.add name none
  | .value name kind text => m.accept ⟨name, kind, some text⟩

theorem add_eq_ok_iff {v : Option Value} :
    m.add name v = .ok m' ↔ m.has name = false ∧ m' = ⟨m.found ++ [(name, v)]⟩ := by
  rw [add]
  cases m.has name with
  | true => simp
  | false => simp [eq_comm]

theorem take_eq_ok_iff :
    m.take e = .ok m' ↔
      m.has e.name = false ∧ ∃ given, e.Gives given ∧ m' = ⟨m.found ++ [given]⟩ := by
  cases e with
  | flag name =>
    rw [take, add_eq_ok_iff]
    simp only [Entry.Gives, Entry.name, exists_eq_left]
  | value name kind text =>
    simp only [take, accept, Entry.name, Entry.Gives]
    cases hhas : m.has name with
    | true => simp
    | false =>
      rw [if_neg Bool.false_ne_true]
      cases kind.read text with
      | error r => simp
      | ok v => simp only [add_eq_ok_iff, hhas, Except.ok.injEq, exists_eq_left', exists_eq_left]

/-- take entries one after another -/
inductive Takes : Matches → List Entry → Matches → Prop
  | nil (m : Matches) : Takes m [] m
  | cons {m m' m'' : Matches} {e : Entry} {es : List Entry} (h : m.take e = .ok m')
      (later : Takes m' es m'') : Takes m (e :: es) m''

theorem takes_append_iff :
    Takes m (es ++ fs) m' ↔ ∃ between, Takes m es between ∧ Takes between fs m' := by
  induction es generalizing m with
  | nil =>
    refine ⟨fun h => ⟨m, .nil m, h⟩, ?_⟩
    rintro ⟨_, ⟨⟩, h⟩
    exact h
  | cons e es ih =>
    constructor
    · rintro (_ | ⟨htake, hlater⟩)
      obtain ⟨between, h, h'⟩ := ih.mp hlater
      exact ⟨between, .cons htake h, h'⟩
    · rintro ⟨between, _ | ⟨htake, hlater⟩, h⟩
      exact .cons htake (ih.mpr ⟨between, hlater, h⟩)

theorem takes_singleton_iff : Takes m [e] m' ↔ m.take e = .ok m' := by
  refine ⟨?_, fun h => .cons h (.nil m')⟩
  rintro (_ | ⟨h, ⟨⟩⟩)
  exact h

theorem has_append (vs ws : List (String × Option Value)) :
    has ⟨vs ++ ws⟩ name = (has ⟨vs⟩ name || has ⟨ws⟩ name) := List.any_append

theorem has_singleton_eq_false_iff {v : String × Option Value} :
    has ⟨[v]⟩ name = false ↔ v.1 ≠ name := by
  simp [has]

/-- Entries can be taken if no name is taken twice and every text is fit; what is found is then what
they give. -/
theorem takes_iff : Takes m es m' ↔ (∀ e ∈ es, m.has e.name = false) ∧ (es.map Entry.name).Nodup ∧
    ∃ vs, List.Forall₂ Entry.Gives es vs ∧ m' = ⟨m.found ++ vs⟩ := by
  induction es generalizing m with
  | nil =>
    constructor
    · rintro ⟨⟩
      exact ⟨fun _ he => absurd he List.not_mem_nil, .nil, [], .nil, by rw [List.append_nil]⟩
    · rintro ⟨-, -, _, ⟨⟩, rfl⟩
      rw [List.append_nil]
      exact .nil m
  | cons e es ih =>
    have hfresh : ∀ {v}, e.Gives v → ((∀ d ∈ es, has ⟨m.found ++ [v]⟩ d.name = false) ↔
        e.name ∉ es.map Entry.name ∧ ∀ d ∈ es, m.has d.name = false) := by
      intro v hv
      simp only [has_append, Bool.or_eq_false_iff, has_singleton_eq_false_iff, hv.name_eq,
        List.mem_map, not_exists, not_and, forall_and]
      exact ⟨fun h => ⟨fun d hd => Ne.symm (h.2 d hd), h.1⟩,
        fun h => ⟨h.2, fun d hd => Ne.symm (h.1 d hd)⟩⟩
    rw [List.forall_mem_cons, List.map_cons, List.nodup_cons]
    constructor
    · rintro (_ | ⟨htake, hlater⟩)
      obtain ⟨hnew, v, hv, rfl⟩ := take_eq_ok_iff.mp htake
      obtain ⟨hothers, hnodup, vs, hvs, rfl⟩ := ih.mp hlater
      obtain ⟨hname, hothers⟩ := (hfresh hv).mp hothers
      refine ⟨⟨hnew, hothers⟩, ⟨hname, hnodup⟩, v :: vs, .cons hv hvs, ?_⟩
      rw [List.append_assoc, List.singleton_append]
    · rintro ⟨⟨hnew, hothers⟩, ⟨hname, hnodup⟩, _, _ | ⟨hv, hvs⟩, rfl⟩
      refine .cons (take_eq_ok_iff.mpr ⟨hnew, _, hv, rfl⟩) (ih.mpr ⟨?_, hnodup, _, hvs, ?_⟩)
      · exact (hfresh hv).mpr ⟨hname, hothers⟩
      · rw [List.append_assoc, List.singleton_append]

end Matches

/-! ## how entries are written -/

/-- an argument that is no option -/
def IsWord (text : String) : Prop := ∀ l ls, text.toList ≠ '-' :: l :: ls

/-- the options that letters stand for; all of them are flags -/
def Spell (c : Command) (letters : List Char) (options : List Opt) : Prop :=
  List.Forall₂ (fun l o => c.short? l = some o ∧ o.action = .flag) letters options

/-- The arguments say these entries, in this order, among them all positionals that are awaited.  If
they are stopped, they are all positional. -/
inductive Says (c : Command) : Bool → List Positional → List String → List Entry → Prop
  | done (stopped : Bool) : Says c stopped [] [] []
  | stop {ps : List Positional} {args : List String} {es : List Entry}
      (later : Says c true ps args es) : Says c false ps ("--" :: args) es
  | positional {stopped : Bool} {p : Positional} {ps : List Positional} {text : String}
      {args : List String} {es : List Entry} (hword : stopped = true ∨ IsWord text)
      (later : Says c stopped ps args es) :
      Says c stopped (p :: ps) (text :: args) (.value p.name p.kind text :: es)
  | attached {ps : List Positional} {name text : String} {o : Opt} {k : ValueKind}
      {args : List String} {es : List Entry} (ho : c.long? name = some o)
      (hk : o.action = .value k) (later : Says c false ps args es) :
      Says c false ps (("--" ++ name ++ "=" ++ text) :: args) (.value name k text :: es)
  | detached {ps : List Positional} {name text : String} {o : Opt} {k : ValueKind}
      {args : List String} {es : List Entry} (ho : c.long? name = some o)
      (hk : o.action = .value k) (hword : IsWord text) (later : Says c false ps args es) :
      Says c false ps (("--" ++ name) :: text :: args) (.value name k text :: es)
  | flag {ps : List Positional} {name : String} {o : Opt} {args : List String} {es : List Entry}
      (ho : c.long? name = some o) (hflag : o.action = .flag) (later : Says c false ps args es) :
      Says c false ps (("--" ++ name) :: args) (.flag name :: es)
  | letters {ps : List Positional} {ls : List Char} {os : List Opt} {args : List String}
      {es : List Entry} (hne : ls ≠ []) (hos : Spell c ls os) (later : Says c false ps args es) :
      Says c false ps (String.ofList ('-' :: ls) :: args) (os.map (fun o => .flag o.name) ++ es)

/-- a name that an option can have -/
def IsLongName (name : String) : Prop := name ≠ "" ∧ '=' ∉ name.toList

/-- Names are not empty and have no equals sign in them; a letter is no minus sign, and does not
take a value. -/
structure Command.WellNamed (c : Command) : Prop where
  name : ∀ o ∈ c.options, IsLongName o.name
  letter : ∀ o ∈ c.options, o.short ≠ some '-'
  no_value : ∀ o ∈ c.options, o.short.isSome → ∀ k, o.action ≠ .value k

namespace Command

variable {c : Command} {o : Opt}

theorem of_long {name : String} (h : c.long? name = some o) : o ∈ c.options ∧ o.name = name := by
  have hname := List.find?_some h
  exact ⟨List.mem_of_find?_eq_some h, beq_iff_eq.mp hname⟩

theorem of_short {l : Char} (h : c.short? l = some o) : o ∈ c.options ∧ o.short = some l := by
  have hshort := List.find?_some h
  exact ⟨List.mem_of_find?_eq_some h, beq_iff_eq.mp hshort⟩

theorem WellNamed.of_long (hnamed : c.WellNamed) {name : String} (h : c.long? name = some o) :
    IsLongName name := by
  obtain ⟨hmem, rfl⟩ := Command.of_long h
  exact hnamed.name o hmem

theorem WellNamed.head_ne (hnamed : c.WellNamed) {ls : List Char} {os : List Opt}
    (h : Spell c ls os) : ls.head? ≠ some '-' := by
  cases h with
  | nil => nofun
  | cons h later =>
    obtain ⟨hmem, hshort⟩ := Command.of_short h.1
    rintro ⟨⟩
    exact hnamed.letter _ hmem hshort

end Command

/-! ## the five forms of an argument -/

/-- Two minus signs and what follows them: an option, with a value if there is an equals sign. -/
theorem exists_option {arg : String} {body : List Char} (h : arg.toList = '-' :: '-' :: body)
    (hne : body ≠ []) : (∃ name, IsLongName name ∧ arg = "--" ++ name) ∨
      ∃ name text, '=' ∉ name.toList ∧ arg = "--" ++ name ++ "=" ++ text := by
  by_cases hequals : '=' ∈ body
  · obtain ⟨name, text, hbody, hname⟩ := List.eq_append_cons_of_mem hequals
    refine .inr ⟨String.ofList name, String.ofList text, ?_, String.toList_injective ?_⟩
    · rw [String.toList_ofList]
      exact hname
    · rw [h, hbody]
      simp only [String.toList_append, String.toList_ofList]
      exact (List.append_cons ('-' :: '-' :: name) '=' text)
  · refine .inl ⟨String.ofList body, ⟨?_, ?_⟩, String.toList_injective ?_⟩
    · intro hempty
      exact hne (by rw [← String.toList_ofList (l := body), hempty]; rfl)
    · rw [String.toList_ofList]
      exact hequals
    · rw [h, String.toList_append, String.toList_ofList (l := body)]
      rfl

/-- An argument has one of five forms. -/
theorem exists_form (arg : String) :
    arg = "--" ∨ (∃ name, IsLongName name ∧ arg = "--" ++ name) ∨
      (∃ name text, '=' ∉ name.toList ∧ arg = "--" ++ name ++ "=" ++ text) ∨
      (∃ ls, ls ≠ [] ∧ ls.head? ≠ some '-' ∧ arg = String.ofList ('-' :: ls)) ∨ IsWord arg := by
  by_cases hword : IsWord arg
  · exact .inr (.inr (.inr (.inr hword)))
  · obtain ⟨l, ls, hls⟩ : ∃ l ls, arg.toList = '-' :: l :: ls := by
      by_contra hnone
      exact hword fun l ls h => hnone ⟨l, ls, h⟩
    by_cases hl : l = '-'
    · subst hl
      by_cases hne : ls = []
      · subst hne
        exact .inl (String.toList_injective hls)
      · rcases exists_option hls hne with hlong | hattached
        · exact .inr (.inl hlong)
        · exact .inr (.inr (.inl hattached))
    · refine .inr (.inr (.inr (.inl ⟨l :: ls, List.cons_ne_nil _ _, ?_, ?_⟩)))
      · rw [List.head?_cons, ne_eq, Option.some.injEq]
        exact hl
      · rw [← hls, String.ofList_toList]

/-! ## one step -/

namespace Progress

variable {c : Command} {s s' : Progress} {name text : String}

/-- the entry that is known and has not been taken -/
def unsettled (s : Progress) : List Entry :=
  match s.pending with
  | some ⟨name, kind, some text⟩ => [.value name kind text]
  | _ => []

/-- No option waits for its text. -/
def Ready (s : Progress) : Prop := ∀ p ∈ s.pending, p.text ≠ none

theorem ready_of_settled {given : Matches} {ps : List Positional} {stopped : Bool} :
    Ready ⟨given, none, ps, stopped⟩ := nofun

theorem ready_of_text {given : Matches} {ps : List Positional} {stopped : Bool}
    {kind : ValueKind} : Ready ⟨given, some ⟨name, kind, some text⟩, ps, stopped⟩ := by
  rintro _ ⟨⟩
  exact Option.some_ne_none text

theorem settle_eq_ok_iff (h : s.Ready) : s.settle = .ok s' ↔
    ∃ m, Matches.Takes s.given s.unsettled m ∧ s' = ⟨m, none, s.awaited, s.trailing⟩ := by
  obtain ⟨given, pending, awaited, trailing⟩ := s
  rcases pending with _ | ⟨name, kind, _ | text⟩
  · simp only [settle, unsettled, Except.ok.injEq]
    constructor
    · rintro rfl
      exact ⟨_, .nil _, rfl⟩
    · rintro ⟨_, ⟨⟩, rfl⟩
      rfl
  · exact absurd rfl (h _ rfl)
  · simp only [settle, unsettled, Matches.takes_singleton_iff, Matches.take]
    cases given.accept ⟨name, kind, some text⟩ with
    | error r => simp [Except.map]
    | ok m => simp [Except.map, eq_comm]

/-- An option that waits for its text is not settled. -/
theorem settle_of_waiting {p : Pending} (hp : s.pending = some p) (htext : p.text = none) :
    s.settle = .error .invalidValue := by
  rw [settle, hp]
  simp only [Matches.accept, htext]
  rfl

theorem step_stop (h : s.trailing = false) : s.step c "--" = .ok { s with trailing := true } := by
  rw [step, h, if_neg Bool.false_ne_true]
  rfl

theorem step_word (h : s.trailing = false) (hword : IsWord text) :
    s.step c text = s.word text := by
  rw [step, h, if_neg Bool.false_ne_true]
  split
  · next heq => exact absurd heq (hword _ _)
  · next heq => exact absurd heq (hword _ _)
  · next heq => exact absurd heq (hword _ _)
  · rfl

theorem step_letters {ls : List Char} (h : s.trailing = false) (hne : ls ≠ [])
    (hminus : ls.head? ≠ some '-') : s.step c (String.ofList ('-' :: ls)) = s.letters c ls := by
  obtain ⟨l, ls, rfl⟩ := List.exists_cons_of_ne_nil hne
  rw [step, h, if_neg Bool.false_ne_true, String.toList_ofList]
  split
  · next heq => cases heq; exact absurd rfl hminus
  · next heq => cases heq; exact absurd rfl hminus
  · next heq =>
    cases heq
    rfl
  · next hnone => exact absurd rfl (hnone l ls)

theorem step_of_minuses {arg : String} {body : List Char} (h : s.trailing = false)
    (harg : arg.toList = '-' :: '-' :: body) (hne : body ≠ []) :
    s.step c arg =
      match body.dropWhile (· != '=') with
      | [] => s.long c (String.ofList (body.takeWhile (· != '='))) none
      | _ :: text =>
        s.long c (String.ofList (body.takeWhile (· != '='))) (some (String.ofList text)) := by
  rw [step, h, if_neg Bool.false_ne_true, harg]
  split
  · next heq =>
    cases heq
    exact absurd rfl hne
  · next heq =>
    cases heq
    rfl
  · next hminus heq =>
    cases heq
    exact (hminus rfl).elim
  · next hnone => exact absurd rfl (hnone '-' body)

theorem step_long (h : s.trailing = false) (hname : IsLongName name) :
    s.step c ("--" ++ name) = s.long c name none := by
  have hall : ∀ l ∈ name.toList, (l != '=') = true := fun l hl =>
    bne_iff_ne.mpr fun heq => hname.2 (heq ▸ hl)
  have harg : ("--" ++ name).toList = '-' :: '-' :: name.toList := by
    rw [String.toList_append]
    rfl
  rw [step_of_minuses h harg fun hnil => hname.1 (String.toList_eq_nil_iff.mp hnil),
    List.dropWhile_eq_nil_iff.mpr hall, List.takeWhile_eq_self_iff.mpr hall, String.ofList_toList]

theorem step_attached (h : s.trailing = false) (hname : '=' ∉ name.toList) :
    s.step c ("--" ++ name ++ "=" ++ text) = s.long c name (some text) := by
  have hall : ∀ l ∈ name.toList, (l != '=') = true := fun l hl =>
    bne_iff_ne.mpr fun heq => hname (heq ▸ hl)
  have harg : ("--" ++ name ++ "=" ++ text).toList =
      '-' :: '-' :: (name.toList ++ '=' :: text.toList) := by
    simp only [String.toList_append, List.append_assoc]
    rfl
  have hdrop : (name.toList ++ '=' :: text.toList).dropWhile (· != '=') = '=' :: text.toList := by
    rw [List.dropWhile_append_of_pos hall]
    rfl
  have htake : (name.toList ++ '=' :: text.toList).takeWhile (· != '=') = name.toList := by
    rw [List.takeWhile_append_of_pos hall]
    exact List.append_nil _
  have hne : name.toList ++ '=' :: text.toList ≠ [] :=
    List.append_ne_nil_of_right_ne_nil _ (List.cons_ne_nil _ _)
  rw [step_of_minuses h harg hne, hdrop, htake, String.ofList_toList]
  dsimp only
  rw [String.ofList_toList]

/-- To settle is to take what is unsettled, which comes to one thing or fails. -/
theorem settle_cases (h : s.Ready) :
    (∃ r, s.settle = .error r ∧ ∀ m, ¬ Matches.Takes s.given s.unsettled m) ∨
      ∃ m, s.settle = .ok ⟨m, none, s.awaited, s.trailing⟩ ∧
        ∀ m', Matches.Takes s.given s.unsettled m' ↔ m' = m := by
  cases hsettle : s.settle with
  | error r =>
    refine .inl ⟨r, rfl, fun m htakes => ?_⟩
    rw [(settle_eq_ok_iff h).mpr ⟨m, htakes, rfl⟩] at hsettle
    cases hsettle
  | ok between =>
    obtain ⟨m, htakes, rfl⟩ := (settle_eq_ok_iff h).mp hsettle
    refine .inr ⟨m, rfl, fun m' => ⟨fun htakes' => ?_, fun heq => heq ▸ htakes⟩⟩
    rw [(settle_eq_ok_iff h).mpr ⟨m', htakes', rfl⟩] at hsettle
    cases hsettle
    rfl

theorem takes_then_iff {given m : Matches} {es : List Entry} {e : Entry} :
    Matches.Takes given (es ++ [e]) m ↔
      ∃ between, Matches.Takes given es between ∧ between.take e = .ok m := by
  rw [Matches.takes_append_iff]
  simp only [Matches.takes_singleton_iff]

theorem map_eq_ok_iff {α β : Type} {x : Except Refusal α} {f : α → β} {b : β} :
    x.map f = .ok b ↔ ∃ a, x = .ok a ∧ b = f a := by
  cases x with
  | error r => simp [Except.map]
  | ok a => simp [Except.map, eq_comm]

theorem plain_eq_ok_iff (h : s.Ready) {action : Action} : s.plain name action = .ok s' ↔
    (action ≠ .help ∧ action ≠ .version) ∧ ∃ m,
      Matches.Takes s.given (s.unsettled ++ [.flag name]) m ∧
        s' = ⟨m, none, s.awaited, s.trailing⟩ := by
  simp only [plain, takes_then_iff]
  rcases settle_cases h with ⟨r, hsettle, hnone⟩ | ⟨m, hsettle, hall⟩
  · simp [hsettle, hnone]
  · simp only [hsettle, hall, exists_eq_left]
    cases action with
    | help => simp
    | version => simp
    | flag => simp [map_eq_ok_iff, Matches.take]
    | value k => simp [map_eq_ok_iff, Matches.take]

theorem positional_eq_ok_iff (h : s.Ready) : s.positional text = .ok s' ↔
    ∃ p ps m, s.awaited = p :: ps ∧ Matches.Takes s.given s.unsettled m ∧
      s' = ⟨m, some ⟨p.name, p.kind, some text⟩, ps, s.trailing⟩ := by
  rw [positional]
  cases s.awaited with
  | nil => simp
  | cons p ps =>
    rcases settle_cases h with ⟨r, hsettle, hnone⟩ | ⟨m, hsettle, hall⟩
    · simp [hsettle, hnone, Except.map]
    · simp [hsettle, hall, Except.map, eq_comm]

theorem long_eq_ok_iff (h : s.Ready) : s.long c name none = .ok s' ↔
    ∃ o, c.long? name = some o ∧
      ((∃ k m, o.action = .value k ∧ Matches.Takes s.given s.unsettled m ∧
          s' = ⟨m, some ⟨name, k, none⟩, s.awaited, s.trailing⟩) ∨
        (o.action = .flag ∧ ∃ m, Matches.Takes s.given (s.unsettled ++ [.flag name]) m ∧
          s' = ⟨m, none, s.awaited, s.trailing⟩)) := by
  rw [long]
  cases c.long? name with
  | none => simp
  | some o =>
    obtain ⟨_, _, action, _, _⟩ := o
    cases action with
    | value k =>
      rcases settle_cases h with ⟨r, hsettle, hnone⟩ | ⟨m, hsettle, hall⟩
      · simp [hsettle, hnone, Except.map]
      · simp [hsettle, hall, Except.map, eq_comm]
    | flag => simp [plain_eq_ok_iff h]
    | help => simp [plain_eq_ok_iff h]
    | version => simp [plain_eq_ok_iff h]

theorem long_attached_eq_ok_iff (h : s.Ready) : s.long c name (some text) = .ok s' ↔
    ∃ o k m, c.long? name = some o ∧ o.action = .value k ∧
      Matches.Takes s.given (s.unsettled ++ [.value name k text]) m ∧
        s' = ⟨m, none, s.awaited, s.trailing⟩ := by
  rw [long]
  cases c.long? name with
  | none => simp
  | some o =>
    obtain ⟨_, _, action, _, _⟩ := o
    cases action with
    | value k =>
      simp only [takes_then_iff]
      rcases settle_cases h with ⟨r, hsettle, hnone⟩ | ⟨m, hsettle, hall⟩
      · simp [hsettle, hnone]
      · simp [hsettle, hall, map_eq_ok_iff, Matches.take]
    | flag => simp
    | help => simp
    | version => simp

theorem letters_cons_eq_ok_iff (hnamed : c.WellNamed) (h : s.Ready) {l : Char} {ls : List Char} :
    s.letters c (l :: ls) = .ok s' ↔ ∃ o m, c.short? l = some o ∧ o.action = .flag ∧
      Matches.Takes s.given (s.unsettled ++ [.flag o.name]) m ∧
        letters c ⟨m, none, s.awaited, s.trailing⟩ ls = .ok s' := by
  rw [letters]
  cases hshort : c.short? l with
  | none => simp
  | some o =>
    obtain ⟨hmem, hletter⟩ := Command.of_short hshort
    have hflag : (o.action ≠ .help ∧ o.action ≠ .version) ↔ o.action = .flag := by
      have hvalue := hnamed.no_value o hmem (by rw [hletter]; rfl)
      cases haction : o.action with
      | value k => exact absurd haction (hvalue k)
      | _ => simp
    dsimp only
    cases hplain : s.plain o.name o.action with
    | error r =>
      refine ⟨fun hs' => (by cases hs'), ?_⟩
      rintro ⟨_, m, ⟨⟩, haction, htakes, -⟩
      rw [(plain_eq_ok_iff h).mpr ⟨hflag.mpr haction, m, htakes, rfl⟩] at hplain
      cases hplain
    | ok between =>
      dsimp only
      constructor
      · intro hs'
        obtain ⟨haction, m, htakes, rfl⟩ := (plain_eq_ok_iff h).mp hplain
        exact ⟨o, m, rfl, hflag.mp haction, htakes, hs'⟩
      · rintro ⟨_, m, ⟨⟩, haction, htakes, hs'⟩
        rw [(plain_eq_ok_iff h).mpr ⟨hflag.mpr haction, m, htakes, rfl⟩] at hplain
        cases hplain
        exact hs'

theorem letters_eq_ok_iff (hnamed : c.WellNamed) (h : s.Ready) {ls : List Char}
    (hsome : s.pending = none ∨ ls ≠ []) :
    s.letters c ls = .ok s' ↔ ∃ os m, Spell c ls os ∧
      Matches.Takes s.given (s.unsettled ++ os.map fun o => .flag o.name) m ∧
        s' = ⟨m, none, s.awaited, s.trailing⟩ := by
  induction ls generalizing s with
  | nil =>
    obtain ⟨given, pending, awaited, trailing⟩ := s
    obtain rfl : pending = none := hsome.resolve_right fun hne => hne rfl
    constructor
    · rintro ⟨⟩
      exact ⟨[], given, .nil, .nil given, rfl⟩
    · rintro ⟨_, _, ⟨⟩, ⟨⟩, rfl⟩
      rfl
  | cons l ls ih =>
    rw [letters_cons_eq_ok_iff hnamed h]
    constructor
    · rintro ⟨o, m, hshort, haction, htakes, hletters⟩
      obtain ⟨os, m', hspell, hlater, rfl⟩ := (ih ready_of_settled (.inl rfl)).mp hletters
      refine ⟨o :: os, m', .cons ⟨hshort, haction⟩ hspell, ?_, rfl⟩
      rw [List.map_cons, List.append_cons]
      exact Matches.takes_append_iff.mpr ⟨m, htakes, hlater⟩
    · rintro ⟨_, m', _ | ⟨⟨hshort, haction⟩, hspell⟩, htakes, rfl⟩
      rw [List.map_cons, List.append_cons, Matches.takes_append_iff] at htakes
      obtain ⟨m, htakes, hlater⟩ := htakes
      exact ⟨_, m, hshort, haction, htakes,
        (ih ready_of_settled (.inl rfl)).mpr ⟨_, m', hspell, hlater, rfl⟩⟩

/-- No option and no letter is looked at before what is pending. -/
theorem long_of_unsettled {r : Refusal} (h : s.settle = .error r) (attached : Option String) :
    s.long c name attached ≠ .ok s' := by
  rw [long]
  cases c.long? name with
  | none => simp
  | some o =>
    obtain ⟨_, _, action, _, _⟩ := o
    cases action <;> cases attached <;> simp [plain, h, Except.map]

theorem letters_of_unsettled {r : Refusal} (h : s.settle = .error r) {ls : List Char}
    (hne : ls ≠ []) : s.letters c ls ≠ .ok s' := by
  obtain ⟨l, ls, rfl⟩ := List.exists_cons_of_ne_nil hne
  rw [letters]
  cases c.short? l with
  | none => simp
  | some o => simp [plain, h]

/-- A word is a positional unless an option waits for it. -/
theorem word_of_ready (h : s.Ready) : s.word text = s.positional text := by
  obtain ⟨given, pending, awaited, trailing⟩ := s
  rcases pending with _ | ⟨name, kind, _ | text⟩
  · rfl
  · exact absurd rfl (h _ rfl)
  · rfl

theorem step_positional (h : s.Ready) (hword : s.trailing = true ∨ IsWord text) :
    s.step c text = s.positional text := by
  cases htrailing : s.trailing with
  | true => rw [step, htrailing, if_pos rfl]
  | false =>
    rw [step_word htrailing (hword.resolve_left (by rw [htrailing]; exact Bool.false_ne_true)),
      word_of_ready h]

end Progress

/-! ## reading to the end -/

/-- Reading comes to an end with no positional left to wait for. -/
def Ends (c : Command) (s : Progress) (args : List String) (m : Matches) : Prop :=
  ∃ s', readAll c s args = .ok s' ∧ s'.awaited = [] ∧ s'.given = m

section
variable {c : Command} {s : Progress} {m : Matches} {args : List String}

theorem ends_nil_iff (h : s.Ready) :
    Ends c s [] m ↔ s.awaited = [] ∧ Matches.Takes s.given s.unsettled m := by
  simp only [Ends, readAll, Progress.settle_eq_ok_iff h]
  constructor
  · rintro ⟨_, ⟨_, htakes, rfl⟩, hawaited, rfl⟩
    exact ⟨hawaited, htakes⟩
  · rintro ⟨hawaited, htakes⟩
    exact ⟨_, ⟨m, htakes, rfl⟩, hawaited, rfl⟩

theorem ends_cons_iff {arg : String} :
    Ends c s (arg :: args) m ↔ ∃ s', s.step c arg = .ok s' ∧ Ends c s' args m := by
  unfold Ends
  rw [readAll]
  cases s.step c arg with
  | error r => simp
  | ok s' => simp

/-- An option whose text is missing is refused when something else comes, or nothing. -/
theorem not_ends_of_waiting {p : Pending} (hp : s.pending = some p) (htext : p.text = none)
    (hstopped : s.trailing = true) : ¬ Ends c s args m := by
  have hsettle := Progress.settle_of_waiting hp htext
  cases args with
  | nil =>
    rintro ⟨s', hend, -⟩
    rw [readAll, hsettle] at hend
    cases hend
  | cons arg args =>
    rw [ends_cons_iff]
    rintro ⟨s', hstep, -⟩
    rw [Progress.step, hstopped, if_pos rfl, Progress.positional, hsettle] at hstep
    split at hstep <;> cases hstep

/-- An option whose text is missing takes a word for it. -/
theorem ends_waiting_iff {given : Matches} {name : String} {kind : ValueKind}
    {ps : List Positional} :
    Ends c ⟨given, some ⟨name, kind, none⟩, ps, false⟩ args m ↔
      ∃ text later, args = text :: later ∧ IsWord text ∧
        Ends c ⟨given, some ⟨name, kind, some text⟩, ps, false⟩ later m := by
  have hsettle : Progress.settle ⟨given, some ⟨name, kind, none⟩, ps, false⟩ =
      .error .invalidValue := Progress.settle_of_waiting rfl rfl
  cases args with
  | nil =>
    refine ⟨?_, fun ⟨_, _, h, _⟩ => by cases h⟩
    rintro ⟨s', hend, -⟩
    rw [readAll, hsettle] at hend
    cases hend
  | cons arg args =>
    rw [ends_cons_iff]
    constructor
    · rintro ⟨s', hstep, hends⟩
      rcases exists_form arg with rfl | ⟨long, hlong, rfl⟩ | ⟨long, text, hlong, rfl⟩ |
        ⟨ls, hne, hminus, rfl⟩ | hword
      · rw [Progress.step_stop rfl] at hstep
        cases hstep
        exact absurd hends (not_ends_of_waiting rfl rfl rfl)
      · rw [Progress.step_long rfl hlong] at hstep
        exact absurd hstep (Progress.long_of_unsettled hsettle none)
      · rw [Progress.step_attached rfl hlong] at hstep
        exact absurd hstep (Progress.long_of_unsettled hsettle (some text))
      · rw [Progress.step_letters rfl hne hminus] at hstep
        exact absurd hstep (Progress.letters_of_unsettled hsettle hne)
      · rw [Progress.step_word rfl hword] at hstep
        cases hstep
        exact ⟨arg, args, rfl, hword, hends⟩
    · rintro ⟨_, _, ⟨⟩, hword, hends⟩
      refine ⟨_, ?_, hends⟩
      rw [Progress.step_word rfl hword]
      rfl

/-- Arguments that say entries are read to the end, if the entries can be taken. -/
theorem ends_of_entries (hnamed : c.WellNamed) {stopped : Bool} {ps : List Positional}
    {es : List Entry} (hsaid : Says c stopped ps args es) {given : Matches}
    {pending : Option Pending} (h : Progress.Ready ⟨given, pending, ps, stopped⟩)
    (htakes : Matches.Takes given (Progress.unsettled ⟨given, pending, ps, stopped⟩ ++ es) m) :
    Ends c ⟨given, pending, ps, stopped⟩ args m := by
  induction hsaid generalizing given pending with
  | done stopped =>
    rw [List.append_nil] at htakes
    exact (ends_nil_iff h).mpr ⟨rfl, htakes⟩
  | stop later ih => exact ends_cons_iff.mpr ⟨_, Progress.step_stop rfl, ih h htakes⟩
  | @positional stopped p ps text args es hword later ih =>
    obtain ⟨m₁, hfirst, hlater⟩ := Matches.takes_append_iff.mp htakes
    refine ends_cons_iff.mpr ⟨⟨m₁, some ⟨p.name, p.kind, some text⟩, ps, stopped⟩, ?_,
      ih Progress.ready_of_text hlater⟩
    rw [Progress.step_positional h hword]
    exact (Progress.positional_eq_ok_iff h).mpr ⟨p, ps, m₁, rfl, hfirst, rfl⟩
  | attached ho hk later ih =>
    rw [List.append_cons] at htakes
    obtain ⟨m₁, hfirst, hlater⟩ := Matches.takes_append_iff.mp htakes
    refine ends_cons_iff.mpr ⟨⟨m₁, none, _, false⟩, ?_, ih Progress.ready_of_settled hlater⟩
    rw [Progress.step_attached rfl (hnamed.of_long ho).2]
    exact (Progress.long_attached_eq_ok_iff h).mpr ⟨_, _, m₁, ho, hk, hfirst, rfl⟩
  | detached ho hk hword later ih =>
    obtain ⟨m₁, hfirst, hlater⟩ := Matches.takes_append_iff.mp htakes
    refine ends_cons_iff.mpr ⟨⟨m₁, some ⟨_, _, none⟩, _, false⟩, ?_,
      ends_waiting_iff.mpr ⟨_, _, rfl, hword, ih Progress.ready_of_text hlater⟩⟩
    rw [Progress.step_long rfl (hnamed.of_long ho)]
    exact (Progress.long_eq_ok_iff h).mpr ⟨_, ho, .inl ⟨_, m₁, hk, hfirst, rfl⟩⟩
  | flag ho hflag later ih =>
    rw [List.append_cons] at htakes
    obtain ⟨m₁, hfirst, hlater⟩ := Matches.takes_append_iff.mp htakes
    refine ends_cons_iff.mpr ⟨⟨m₁, none, _, false⟩, ?_, ih Progress.ready_of_settled hlater⟩
    rw [Progress.step_long rfl (hnamed.of_long ho)]
    exact (Progress.long_eq_ok_iff h).mpr ⟨_, ho, .inr ⟨hflag, m₁, hfirst, rfl⟩⟩
  | letters hne hos later ih =>
    rw [← List.append_assoc] at htakes
    obtain ⟨m₁, hfirst, hlater⟩ := Matches.takes_append_iff.mp htakes
    refine ends_cons_iff.mpr ⟨⟨m₁, none, _, false⟩, ?_, ih Progress.ready_of_settled hlater⟩
    rw [Progress.step_letters rfl hne (hnamed.head_ne hos)]
    exact (Progress.letters_eq_ok_iff hnamed h (.inr hne)).mpr ⟨_, m₁, hos, hfirst, rfl⟩

/-- Arguments that are read to the end say entries that can be taken. -/
theorem exists_says_of_ends (hnamed : c.WellNamed) (h : s.Ready) (hends : Ends c s args m) :
    ∃ es, Says c s.trailing s.awaited args es ∧ Matches.Takes s.given (s.unsettled ++ es) m := by
  -- an option and its value are two arguments
  induction hn : args.length using Nat.strongRecOn generalizing s args with
  | ind n ih =>
    cases args with
    | nil =>
      obtain ⟨hawaited, htakes⟩ := (ends_nil_iff h).mp hends
      refine ⟨[], ?_, by rw [List.append_nil]; exact htakes⟩
      rw [hawaited]
      exact .done _
    | cons arg args =>
      have hless : args.length < n := hn ▸ Nat.lt_succ_self _
      obtain ⟨s', hstep, hlater⟩ := ends_cons_iff.mp hends
      have hpositional (hword : s.trailing = true ∨ IsWord arg) : ∃ es,
          Says c s.trailing s.awaited (arg :: args) es ∧
            Matches.Takes s.given (s.unsettled ++ es) m := by
        rw [Progress.step_positional h hword] at hstep
        obtain ⟨p, ps, m₁, hawaited, hfirst, rfl⟩ := (Progress.positional_eq_ok_iff h).mp hstep
        obtain ⟨es, hsaid, htakes⟩ := ih _ hless Progress.ready_of_text hlater rfl
        rw [hawaited]
        exact ⟨_, .positional hword hsaid, Matches.takes_append_iff.mpr ⟨m₁, hfirst, htakes⟩⟩
      obtain ⟨given, pending, ps, stopped⟩ := s
      cases stopped with
      | true => exact hpositional (.inl rfl)
      | false =>
        rcases exists_form arg with rfl | ⟨name, hname, rfl⟩ | ⟨name, text, hname, rfl⟩ |
          ⟨ls, hne, hminus, rfl⟩ | hword
        · rw [Progress.step_stop rfl] at hstep
          cases hstep
          have h' : Progress.Ready ⟨given, pending, ps, true⟩ := h
          obtain ⟨es, hsaid, htakes⟩ := ih _ hless h' hlater rfl
          exact ⟨es, .stop hsaid, htakes⟩
        · rw [Progress.step_long rfl hname] at hstep
          obtain ⟨o, ho, ⟨k, m₁, hk, hfirst, rfl⟩ | ⟨hflag, m₁, hfirst, rfl⟩⟩ :=
            (Progress.long_eq_ok_iff h).mp hstep
          · obtain ⟨text, args, rfl, hword, hlater⟩ := ends_waiting_iff.mp hlater
            obtain ⟨es, hsaid, htakes⟩ :=
              ih _ (Nat.lt_of_succ_lt hless) Progress.ready_of_text hlater rfl
            exact ⟨_, .detached ho hk hword hsaid,
              Matches.takes_append_iff.mpr ⟨m₁, hfirst, htakes⟩⟩
          · obtain ⟨es, hsaid, htakes⟩ := ih _ hless Progress.ready_of_settled hlater rfl
            refine ⟨_, .flag ho hflag hsaid, ?_⟩
            rw [List.append_cons]
            exact Matches.takes_append_iff.mpr ⟨m₁, hfirst, htakes⟩
        · rw [Progress.step_attached rfl hname] at hstep
          obtain ⟨o, k, m₁, ho, hk, hfirst, rfl⟩ := (Progress.long_attached_eq_ok_iff h).mp hstep
          obtain ⟨es, hsaid, htakes⟩ := ih _ hless Progress.ready_of_settled hlater rfl
          refine ⟨_, .attached ho hk hsaid, ?_⟩
          rw [List.append_cons]
          exact Matches.takes_append_iff.mpr ⟨m₁, hfirst, htakes⟩
        · rw [Progress.step_letters rfl hne hminus] at hstep
          obtain ⟨os, m₁, hos, hfirst, rfl⟩ :=
            (Progress.letters_eq_ok_iff hnamed h (.inr hne)).mp hstep
          obtain ⟨es, hsaid, htakes⟩ := ih _ hless Progress.ready_of_settled hlater rfl
          refine ⟨_, .letters hne hos hsaid, ?_⟩
          rw [← List.append_assoc]
          exact Matches.takes_append_iff.mpr ⟨m₁, hfirst, htakes⟩
        · exact hpositional (.inr hword)

end

/-- **The matches of arguments**: they are there if the arguments say entries that can be taken,
among them all positionals. -/
theorem ofArguments_iff {c : Command} (hnamed : c.WellNamed) {args : List String} {m : Matches} :
    Matches.ofArguments c args = .ok m ↔
      ∃ es given, Says c false c.positionals args es ∧ Matches.Takes ⟨[]⟩ es given ∧
        m = c.options.foldl addFallback given := by
  have hends : Matches.ofArguments c args = .ok m ↔
      ∃ given, Ends c (.start c) args given ∧ m = c.options.foldl addFallback given := by
    simp only [Matches.ofArguments, Ends]
    cases readAll c (.start c) args with
    | error r => simp
    | ok s => cases hawaited : s.awaited <;> simp [hawaited, eq_comm]
  rw [hends]
  constructor
  · rintro ⟨given, h, rfl⟩
    obtain ⟨es, hsaid, htakes⟩ := exists_says_of_ends hnamed Progress.ready_of_settled h
    exact ⟨es, given, hsaid, htakes, rfl⟩
  · rintro ⟨es, given, hsaid, htakes, rfl⟩
    exact ⟨given, ends_of_entries hnamed hsaid Progress.ready_of_settled htakes, rfl⟩

end PageFuzz.CommandLine
