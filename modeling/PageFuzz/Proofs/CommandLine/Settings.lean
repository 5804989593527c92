import Mathlib
import PageFuzz.CommandLine.Run
import PageFuzz.Proofs.CommandLine.Arguments
import PageFuzz.Proofs.Page.Payload
import PageFuzz.Proofs.Session.Seeds
import PageFuzz.Proofs.Session.Starting
import PageFuzz.Proofs.Text.Numerals

/-!
# Settings from arguments

Values are checked twice, when arguments are read and when a session starts.  What the first check
lets through the second has no fault to find with: the only fault that is left is that the directory
of the session is there already, or that the files do not allow it to be made.  And nothing that is
fit is kept out: each numeral of a number in its range is a value, wherever a value may stand.

* `ValueKind.Means`      what a text means as a value of a kind, and `read_eq_ok_iff`;
* `Proper`               entries that can be taken;
* `SetBy`                the settings that entries make;
* `start_of_fit`         a start with settings that are fit;
* `read_fuzz_exact`      all arguments and what they set.
-/

namespace PageFuzz

namespace CommandLine

/-! ## values -/

/-- what a text means as a value of a kind -/
def ValueKind.Means : ValueKind → String → Value → Prop
  | number least greatest, text, v =>
    ∃ n, Text.Numeral text n ∧ least ≤ n ∧ n ≤ greatest ∧ v = .number n
  | seed, text, v => IsSeedForm text.toList ∧ ∃ s : Seed, s.text = text ∧ v = .seed s
  | path, text, v => text ≠ "" ∧ v = .path (.ofString text)

theorem read_eq_ok_iff {k : ValueKind} {text : String} {v : Value} :
    k.read text = .ok v ↔ k.Means text v := by
  cases k with
  | number least greatest =>
    rw [ValueKind.read_number_eq_ok]
    simp only [Text.readNat_eq_some_iff, ValueKind.Means]
  | seed =>
    simp only [ValueKind.read, ValueKind.Means]
    rcases Seed.ofString_cases text with ⟨hform, s, hs, rfl⟩ | ⟨hform, herror⟩
    · rw [hs]
      constructor
      · rintro ⟨⟩
        exact ⟨hform, s, rfl, rfl⟩
      · rintro ⟨-, ⟨text, hseed⟩, rfl, rfl⟩
        rfl
    · simp [herror, hform]
  | path =>
    simp only [ValueKind.read, ValueKind.Means, String.isEmpty_iff]
    split
    · next hempty => simp [hempty]
    · next hne =>
      rw [Except.ok.injEq, and_iff_right hne]
      exact eq_comm

/-- A numeral is no option, so that it may stand wherever a number may. -/
theorem isWord_of_numeral {text : String} {n : Nat} (h : Text.Numeral text n) : IsWord text := by
  obtain ⟨sign, zeros, hsign, htext⟩ := h
  intro l ls hminus
  have hmem : '-' ∈ sign ++ (List.replicate zeros '0' ++ Nat.toDigits 10 n) := by
    rw [← htext, hminus]
    exact List.mem_cons_self
  rcases List.mem_append.mp hmem with hmem | hmem
  · rcases hsign with rfl | rfl <;> simp at hmem
  · rcases List.mem_append.mp hmem with hmem | hmem
    · cases List.eq_of_mem_replicate hmem
    · cases Nat.isDigit_of_mem_toDigits (by decide) (by decide) hmem

/-! ## what entries tell -/

/-- Entries that can be taken: no name comes twice, and every text means something. -/
structure Proper (es : List Entry) : Prop where
  nodup : (es.map Entry.name).Nodup
  means : ∀ name kind text, .value name kind text ∈ es → ∃ v, kind.Means text v

/-- Among the entries is a value for the name. -/
def Tells (es : List Entry) (name : String) (v : Value) : Prop :=
  ∃ kind text, .value name kind text ∈ es ∧ kind.Means text v

section
variable {es : List Entry} {vs : List (String × Option Value)} {name : String} {v : Value}

theorem Entry.Gives.unique {e : Entry} {x y : String × Option Value} (hx : e.Gives x)
    (hy : e.Gives y) : x = y := by
  cases e with
  | flag name => exact hx.trans hy.symm
  | value name kind text =>
    obtain ⟨v, hv, rfl⟩ := hx
    obtain ⟨w, hw, rfl⟩ := hy
    cases hv.symm.trans hw
    rfl

theorem names_of_gives (h : List.Forall₂ Entry.Gives es vs) :
    vs.map Prod.fst = es.map Entry.name := by
  induction h with
  | nil => rfl
  | cons hgives _ ih => rw [List.map_cons, List.map_cons, ih, hgives.name_eq]

theorem lookup_of_gives (h : List.Forall₂ Entry.Gives es vs) (hnodup : (es.map Entry.name).Nodup)
    {given : Option Value} :
    vs.lookup name = some given ↔ ∃ e ∈ es, e.Gives (name, given) := by
  induction h with
  | nil => simp
  | @cons e x es vs hgives hlater ih =>
    obtain ⟨hfirst, hnodup⟩ := List.nodup_cons.mp hnodup
    obtain ⟨key, found⟩ := x
    have hkey : key = e.name := hgives.name_eq
    rw [List.lookup_cons, List.exists_mem_cons_iff]
    by_cases hname : name = key
    · subst hname
      have hothers : ¬ ∃ d ∈ es, d.Gives (name, given) := by
        rintro ⟨d, hd, hgives'⟩
        have hname : d.name = e.name := hgives'.name_eq.symm.trans hkey
        exact hfirst (hname ▸ List.mem_map_of_mem hd)
      rw [BEq.rfl, or_iff_left hothers]
      dsimp only
      rw [Option.some.injEq]
      exact ⟨fun h => h ▸ hgives, fun h => congrArg Prod.snd (hgives.unique h)⟩
    · have hfirst : ¬ e.Gives (name, given) := fun h => hname (h.name_eq.trans hkey.symm)
      rw [beq_false_of_ne hname, or_iff_right hfirst]
      exact ih hnodup

theorem value?_of_gives (h : List.Forall₂ Entry.Gives es vs) (hnodup : (es.map Entry.name).Nodup) :
    (Matches.mk vs).value? name = some v ↔ Tells es name v := by
  rw [Matches.value?, Option.join_eq_some_iff, lookup_of_gives h hnodup]
  constructor
  · rintro ⟨e, he, hgives⟩
    cases e with
    | flag other => cases hgives
    | value other kind text =>
      obtain ⟨w, hread, ⟨⟩⟩ := hgives
      exact ⟨kind, text, he, read_eq_ok_iff.mp hread⟩
  · rintro ⟨kind, text, he, hmeans⟩
    exact ⟨_, he, v, read_eq_ok_iff.mpr hmeans, rfl⟩

theorem has_of_gives (h : List.Forall₂ Entry.Gives es vs) :
    (Matches.mk vs).has name = true ↔ ∃ e ∈ es, e.name = name := by
  have hhas : (Matches.mk vs).has name = true ↔ name ∈ vs.map Prod.fst := by
    simp [Matches.has]
  rw [hhas, names_of_gives h, List.mem_map]

theorem takes_empty_iff {given : Matches} : Matches.Takes ⟨[]⟩ es given ↔
    (es.map Entry.name).Nodup ∧ List.Forall₂ Entry.Gives es given.found := by
  rw [Matches.takes_iff]
  constructor
  · rintro ⟨-, hnodup, vs, hvs, rfl⟩
    exact ⟨hnodup, hvs⟩
  · rintro ⟨hnodup, hgives⟩
    exact ⟨fun _ _ => rfl, hnodup, _, hgives, rfl⟩

theorem exists_gives_iff :
    (∃ vs, List.Forall₂ Entry.Gives es vs) ↔ ∀ e ∈ es, ∃ x, e.Gives x := by
  induction es with
  | nil => exact ⟨fun _ e he => absurd he List.not_mem_nil, fun _ => ⟨[], .nil⟩⟩
  | cons e es ih =>
    rw [List.forall_mem_cons, ← ih]
    constructor
    · rintro ⟨_, _ | ⟨hgives, hlater⟩⟩
      exact ⟨⟨_, hgives⟩, _, hlater⟩
    · rintro ⟨⟨x, hgives⟩, vs, hlater⟩
      exact ⟨x :: vs, .cons hgives hlater⟩

/-- Entries can be taken if they are proper. -/
theorem exists_takes_iff : (∃ given, Matches.Takes ⟨[]⟩ es given) ↔ Proper es := by
  have hgives : (∃ given : Matches, List.Forall₂ Entry.Gives es given.found) ↔
      ∃ vs, List.Forall₂ Entry.Gives es vs :=
    ⟨fun ⟨given, h⟩ => ⟨given.found, h⟩, fun ⟨vs, h⟩ => ⟨⟨vs⟩, h⟩⟩
  simp only [takes_empty_iff, exists_and_left, hgives, exists_gives_iff]
  constructor
  · rintro ⟨hnodup, hall⟩
    refine ⟨hnodup, fun name kind text hmem => ?_⟩
    obtain ⟨_, v, hread, -⟩ := hall _ hmem
    exact ⟨v, read_eq_ok_iff.mp hread⟩
  · rintro ⟨hnodup, hmeans⟩
    refine ⟨hnodup, fun e he => ?_⟩
    cases e with
    | flag name => exact ⟨_, rfl⟩
    | value name kind text =>
      obtain ⟨v, hv⟩ := hmeans name kind text he
      exact ⟨_, v, read_eq_ok_iff.mpr hv, rfl⟩

end

/-! ## values that are not given -/

/-- a value for a name, if it is not there -/
def Matches.orElse (m : Matches) (name : String) (v : Value) : Matches :=
  if m.has name then m else ⟨m.found ++ [(name, some v)]⟩

theorem addFallback_eq {o : Opt} {k : ValueKind} {text : String} {v : Value}
    (hk : o.action = .value k) (htext : o.fallback = some text) (hread : k.read text = .ok v)
    (m : Matches) : addFallback m o = m.orElse o.name v := by
  simp only [addFallback, hk, htext, hread, Matches.orElse]

theorem has_orElse {m : Matches} {name other : String} {v : Value} (hne : name ≠ other) :
    (m.orElse other v).has name = m.has name := by
  rw [Matches.orElse]
  split
  · rfl
  · rw [Matches.has_append m.found, Matches.has_singleton_eq_false_iff.mpr (Ne.symm hne),
      Bool.or_false]

theorem value?_orElse (m : Matches) (name other : String) (v : Value) :
    (m.orElse other v).value? name =
      if name = other ∧ m.has other = false then some v else m.value? name := by
  rw [Matches.orElse]
  cases hhas : m.has other with
  | true => simp
  | false =>
    by_cases hname : name = other
    · subst hname
      have hnone : m.found.lookup name = none := by
        rw [List.lookup_eq_none_iff]
        intro x hx
        have hother := List.any_eq_false.mp hhas x hx
        rw [bne_iff_ne]
        exact fun heq => hother (beq_iff_eq.mpr heq.symm)
      simp [Matches.value?, List.lookup_append, hnone]
    · simp [Matches.value?, List.lookup_append, hname, List.lookup_cons, beq_false_of_ne hname]

/-! ## the entries of a command -/

/-- Only values of one kind can be given by the name. -/
def Command.Declares (c : Command) (name : String) (kind : ValueKind) : Prop :=
  (∀ o ∈ c.options, o.name = name → o.action = .value kind) ∧
    ∀ p ∈ c.positionals, p.name = name → p.kind = kind

instance (c : Command) (name : String) (kind : ValueKind) : Decidable (c.Declares name kind) :=
  inferInstanceAs (Decidable (_ ∧ _))

/-- Letters spell flags of the command. -/
theorem Spell.mem {c : Command} {ls : List Char} {os : List Opt} (h : Spell c ls os) :
    ∀ o ∈ os, o ∈ c.options ∧ o.action = .flag := by
  induction h with
  | nil => nofun
  | cons hfirst _ ih =>
    have hmem := (Command.of_short hfirst.1).1
    exact List.forall_mem_cons.mpr ⟨⟨hmem, hfirst.2⟩, ih⟩

/-- What holds of the options and positionals of a command, however they are written, holds of all
entries. -/
theorem Says.forall_mem {c : Command} {stopped : Bool} {ps : List Positional} {args : List String}
    {es : List Entry} (h : Says c stopped ps args es) {P : Entry → Prop}
    (hvalue : ∀ o ∈ c.options, ∀ k, o.action = .value k → ∀ text, P (.value o.name k text))
    (hflag : ∀ o ∈ c.options, o.action = .flag → P (.flag o.name))
    (hpositional : ∀ p ∈ ps, ∀ text, P (.value p.name p.kind text)) : ∀ e ∈ es, P e := by
  induction h with
  | done => nofun
  | stop _ ih => exact ih hpositional
  | positional _ _ ih =>
    rw [List.forall_mem_cons] at hpositional ⊢
    exact ⟨hpositional.1 _, ih hpositional.2⟩
  | attached ho hk _ ih =>
    obtain ⟨hmem, rfl⟩ := Command.of_long ho
    exact List.forall_mem_cons.mpr ⟨hvalue _ hmem _ hk _, ih hpositional⟩
  | detached ho hk _ _ ih =>
    obtain ⟨hmem, rfl⟩ := Command.of_long ho
    exact List.forall_mem_cons.mpr ⟨hvalue _ hmem _ hk _, ih hpositional⟩
  | flag ho haction _ ih =>
    obtain ⟨hmem, rfl⟩ := Command.of_long ho
    exact List.forall_mem_cons.mpr ⟨hflag _ hmem haction, ih hpositional⟩
  | letters _ hos _ ih =>
    intro e he
    rcases List.mem_append.mp he with he | he
    · obtain ⟨o, ho, rfl⟩ := List.mem_map.mp he
      obtain ⟨hmem, haction⟩ := hos.mem o ho
      exact hflag o hmem haction
    · exact ih hpositional e he

theorem Says.eq_value {c : Command} {args : List String} {es : List Entry}
    (h : Says c false c.positionals args es) {name : String} {kind : ValueKind}
    (hdeclares : c.Declares name kind) :
    ∀ e ∈ es, e.name = name → ∃ text, e = .value name kind text := by
  refine h.forall_mem (fun o ho k hk text hname => ?_) (fun o ho hflag hname => ?_)
    fun p hp text hname => ?_
  · rw [hdeclares.1 o ho hname] at hk
    cases hk
    exact ⟨text, by rw [← hname, Entry.name]⟩
  · rw [hdeclares.1 o ho hname] at hflag
    cases hflag
  · rw [← hdeclares.2 p hp hname]
    exact ⟨text, by rw [← hname, Entry.name]⟩

/-- Every positional that is awaited is among the entries. -/
theorem Says.exists_value {c : Command} {stopped : Bool} {ps : List Positional} {args : List String}
    {es : List Entry} (h : Says c stopped ps args es) {p : Positional} (hp : p ∈ ps) :
    ∃ text, .value p.name p.kind text ∈ es := by
  induction h with
  | done => cases hp
  | stop _ ih => exact ih hp
  | positional hword _ ih =>
    rcases List.mem_cons.mp hp with rfl | hp
    · exact ⟨_, List.mem_cons_self⟩
    · exact (ih hp).imp fun _ => List.mem_cons_of_mem _
  | attached _ _ _ ih => exact (ih hp).imp fun _ => List.mem_cons_of_mem _
  | detached _ _ _ _ ih => exact (ih hp).imp fun _ => List.mem_cons_of_mem _
  | flag _ _ _ ih => exact (ih hp).imp fun _ => List.mem_cons_of_mem _
  | letters _ _ _ ih => exact (ih hp).imp fun _ => List.mem_append_right _

/-! ## the settings of a session -/

namespace FuzzArguments

/-- The settings are in the ranges that a session can start with. -/
structure Fit (a : FuzzArguments) : Prop where
  port : 1024 ≤ a.port ∧ a.port ≤ 65535
  startAt : 1 ≤ a.startAt ∧ a.startAt < 2 ^ 64
  retention : ∀ n, a.retention = some n → 1 ≤ n ∧ n < 2 ^ 64
  seed : ∀ seed, a.seed = some seed → Seed.ofString seed.text = .ok seed

/-- The settings are what the entries tell; a session starts at the first page, and in the present
directory, if they tell nothing else. -/
structure SetBy (a : FuzzArguments) (es : List Entry) : Prop where
  port : Tells es "port" (.number a.port)
  seed : ∀ seed, a.seed = some seed ↔ .value "seed" .seed seed.text ∈ es
  startAt : Tells es "start-at" (.number a.startAt) ∨
    a.startAt = 1 ∧ ∀ e ∈ es, e.name ≠ "start-at"
  retention : ∀ n, a.retention = some n ↔ Tells es "retention" (.number n)
  outputRoot : Tells es "output-root" (.path a.outputRoot) ∨
    a.outputRoot = .ofString "." ∧ ∀ e ∈ es, e.name ≠ "output-root"

end FuzzArguments

theorem wellNamed_fuzz : fuzzCommand.WellNamed where
  name := by
    unfold IsLongName
    decide
  letter := by decide
  no_value := by
    simp [fuzzCommand, seedOption, commonOptions]

theorem fallbacks_fuzz (m : Matches) : fuzzCommand.options.foldl addFallback m =
    (m.orElse "start-at" (.number 1)).orElse "output-root" (.path (.ofString ".")) := by
  have hone : ValueKind.positive.read "1" = .ok (.number 1) := by cbv
  have hhere : ValueKind.path.read "." = .ok (.path (.ofString ".")) := rfl
  have hstart : ∀ help, addFallback m ⟨"start-at", none, .value .positive, some "1", help⟩ =
      m.orElse "start-at" (.number 1) := fun _ => addFallback_eq rfl rfl hone m
  have hroot : ∀ m help, addFallback m ⟨"output-root", none, .value .path, some ".", help⟩ =
      m.orElse "output-root" (.path (.ofString ".")) := fun m _ => addFallback_eq rfl rfl hhere m
  rw [← hroot, ← hstart]
  rfl

namespace Matches

variable {m : Matches} {name : String}

theorem number?_eq_some_iff {n : Nat} :
    m.number? name = some n ↔ m.value? name = some (.number n) := by
  unfold number?
  split <;> simp_all

theorem seed?_eq_some_iff {seed : Seed} :
    m.seed? name = some seed ↔ m.value? name = some (.seed seed) := by
  unfold seed?
  split <;> simp_all

theorem path?_eq_some_iff {p : Path} :
    m.path? name = some p ↔ m.value? name = some (.path p) := by
  unfold path?
  split <;> simp_all

theorem fuzz?_eq_some_iff {a : FuzzArguments} : m.fuzz? = some a ↔
    m.number? "port" = some a.port ∧ m.seed? "seed" = a.seed ∧
      m.number? "start-at" = some a.startAt ∧ m.number? "retention" = a.retention ∧
        m.path? "output-root" = some a.outputRoot := by
  obtain ⟨port, seed, startAt, retention, root⟩ := a
  simp only [fuzz?, Option.bind_eq_bind, Option.bind_eq_some_iff, Option.pure_def,
    Option.some.injEq, FuzzArguments.mk.injEq]
  constructor
  · rintro ⟨_, hport, _, hstart, _, hroot, rfl, hseed, rfl, hretention, rfl⟩
    exact ⟨hport, hseed, hstart, hretention, hroot⟩
  · rintro ⟨hport, hseed, hstart, hretention, hroot⟩
    exact ⟨_, hport, _, hstart, _, hroot, rfl, hseed, rfl, hretention, rfl⟩

end Matches

theorem read_fuzz_eq_ok_iff {args : List String} {task : Task} {log : LogArguments} :
    Program.fuzz.read args = .ok (task, log) ↔ ∃ m a, Matches.ofArguments fuzzCommand args = .ok m ∧
      m.fuzz? = some a ∧ task = .fuzz a ∧ log = m.log := by
  rw [Program.read, Program.command]
  cases Matches.ofArguments fuzzCommand args with
  | error r => simp
  | ok m =>
    dsimp only
    rw [Program.task?]
    cases hfuzz : m.fuzz? with
    | none => simp [hfuzz]
    | some a => simp [hfuzz, eq_comm]

section
variable {args : List String} {es : List Entry} {given : Matches}

theorem value?_fallbacks (given : Matches) {name : String} (hstart : name ≠ "start-at")
    (hroot : name ≠ "output-root") :
    (fuzzCommand.options.foldl addFallback given).value? name = given.value? name := by
  rw [fallbacks_fuzz, value?_orElse, if_neg fun h => hroot h.1, value?_orElse,
    if_neg fun h => hstart h.1]

theorem value?_startAt (given : Matches) :
    (fuzzCommand.options.foldl addFallback given).value? "start-at" =
      (given.orElse "start-at" (.number 1)).value? "start-at" := by
  rw [fallbacks_fuzz, value?_orElse, if_neg fun h => absurd h.1 (by decide)]

theorem value?_outputRoot (given : Matches) :
    (fuzzCommand.options.foldl addFallback given).value? "output-root" =
      (given.orElse "output-root" (.path (.ofString "."))).value? "output-root" := by
  have hskip : (given.orElse "start-at" (.number 1)).value? "output-root" =
      given.value? "output-root" := by
    rw [value?_orElse, if_neg fun h => absurd h.1 (by decide)]
  rw [fallbacks_fuzz, value?_orElse, hskip, has_orElse (by decide), value?_orElse given]

section
variable {c : Command} {name : String} {v : Value}

/-- What is told by a name is told by a value of its kind. -/
theorem tells_iff_of_declares (hsaid : Says c false c.positionals args es) {kind : ValueKind}
    (hdeclares : c.Declares name kind) :
    Tells es name v ↔ ∃ text, .value name kind text ∈ es ∧ kind.Means text v := by
  refine ⟨?_, fun ⟨text, hmem, hmeans⟩ => ⟨kind, text, hmem, hmeans⟩⟩
  rintro ⟨kind', text, hmem, hmeans⟩
  obtain ⟨_, ⟨⟩⟩ := hsaid.eq_value hdeclares _ hmem rfl
  exact ⟨text, hmem, hmeans⟩

/-- A number is told in its range. -/
theorem number_of_tells (hsaid : Says c false c.positionals args es) {least greatest : Nat}
    (hdeclares : c.Declares name (.number least greatest)) (h : Tells es name v) :
    ∃ n, v = .number n ∧ least ≤ n ∧ n ≤ greatest := by
  obtain ⟨_, -, n, -, hlow, hhigh, rfl⟩ := (tells_iff_of_declares hsaid hdeclares).mp h
  exact ⟨n, rfl, hlow, hhigh⟩

theorem path_of_tells (hsaid : Says c false c.positionals args es)
    (hdeclares : c.Declares name .path) (h : Tells es name v) : ∃ p, v = .path p := by
  obtain ⟨_, -, -, rfl⟩ := (tells_iff_of_declares hsaid hdeclares).mp h
  exact ⟨_, rfl⟩

/-- A name with a fallback has the value that is told, or else the fallback. -/
theorem exists_value_orElse (hsaid : Says c false c.positionals args es) (hproper : Proper es)
    (hgives : List.Forall₂ Entry.Gives es given.found) {kind : ValueKind}
    (hdeclares : c.Declares name kind) (fallback : Value) :
    ∃ v, (given.orElse name fallback).value? name = some v ∧
      (Tells es name v ∨ v = fallback ∧ ∀ e ∈ es, e.name ≠ name) := by
  rw [value?_orElse]
  cases hhas : given.has name with
  | false =>
    refine ⟨fallback, if_pos ⟨rfl, rfl⟩, .inr ⟨rfl, fun e he hname => ?_⟩⟩
    rw [(has_of_gives hgives).mpr ⟨e, he, hname⟩] at hhas
    cases hhas
  | true =>
    obtain ⟨e, he, hname⟩ := (has_of_gives hgives).mp hhas
    obtain ⟨text, rfl⟩ := hsaid.eq_value hdeclares e he hname
    obtain ⟨v, hmeans⟩ := hproper.means name kind text he
    have htells : Tells es name v := ⟨kind, text, he, hmeans⟩
    refine ⟨v, ?_, .inl htells⟩
    rw [if_neg fun h => by cases h.2]
    exact (value?_of_gives hgives hproper.nodup).mpr htells

end

/-- A port is told, and is in its range. -/
theorem exists_port (hsaid : Says fuzzCommand false fuzzCommand.positionals args es)
    (hproper : Proper es) :
    ∃ n, Tells es "port" (.number n) ∧ 1024 ≤ n ∧ n ≤ 65535 := by
  have hdeclares : fuzzCommand.Declares "port" .port := by decide
  obtain ⟨text, hmem⟩ := hsaid.exists_value (p := portArgument) List.mem_cons_self
  obtain ⟨v, hmeans⟩ := hproper.means _ _ text hmem
  have htells : Tells es "port" v := ⟨_, text, hmem, hmeans⟩
  obtain ⟨n, rfl, hrange⟩ := number_of_tells hsaid hdeclares htells
  exact ⟨n, htells, hrange⟩

theorem exists_startAt (hsaid : Says fuzzCommand false fuzzCommand.positionals args es)
    (hproper : Proper es) (hgives : List.Forall₂ Entry.Gives es given.found) :
    ∃ n, (given.orElse "start-at" (.number 1)).value? "start-at" = some (.number n) ∧
      (Tells es "start-at" (.number n) ∨ n = 1 ∧ ∀ e ∈ es, e.name ≠ "start-at") ∧
        1 ≤ n ∧ n < 2 ^ 64 := by
  have hdeclares : fuzzCommand.Declares "start-at" .positive := by decide
  obtain ⟨v, hfound, htold⟩ := exists_value_orElse hsaid hproper hgives hdeclares (.number 1)
  rcases htold with htells | ⟨rfl, hnone⟩
  · obtain ⟨n, rfl, hlow, hhigh⟩ := number_of_tells hsaid hdeclares htells
    exact ⟨n, hfound, .inl htells, hlow, Nat.lt_succ_of_le hhigh⟩
  · exact ⟨1, hfound, .inr ⟨rfl, hnone⟩, by decide⟩

theorem exists_outputRoot (hsaid : Says fuzzCommand false fuzzCommand.positionals args es)
    (hproper : Proper es) (hgives : List.Forall₂ Entry.Gives es given.found) :
    ∃ p, (given.orElse "output-root" (.path (.ofString "."))).value? "output-root" =
        some (.path p) ∧
      (Tells es "output-root" (.path p) ∨
        p = .ofString "." ∧ ∀ e ∈ es, e.name ≠ "output-root") := by
  have hdeclares : fuzzCommand.Declares "output-root" .path := by decide
  obtain ⟨v, hfound, htold⟩ :=
    exists_value_orElse hsaid hproper hgives hdeclares (.path (.ofString "."))
  rcases htold with htells | ⟨rfl, hnone⟩
  · obtain ⟨p, rfl⟩ := path_of_tells hsaid hdeclares htells
    exact ⟨p, hfound, .inl htells⟩
  · exact ⟨_, hfound, .inr ⟨rfl, hnone⟩⟩

/-- A seed is told by its own text. -/
theorem tells_seed_iff (hsaid : Says fuzzCommand false fuzzCommand.positionals args es)
    {seed : Seed} : Tells es "seed" (.seed seed) ↔ .value "seed" .seed seed.text ∈ es := by
  have hdeclares : fuzzCommand.Declares "seed" .seed := by decide
  rw [tells_iff_of_declares hsaid hdeclares]
  constructor
  · rintro ⟨_, hmem, -, _, rfl, ⟨⟩⟩
    exact hmem
  · intro hmem
    exact ⟨_, hmem, (isSeedText_iff _).mp seed.isSeed, seed, rfl, rfl⟩

/-- The settings that proper entries make, which are fit. -/
theorem exists_setBy (hsaid : Says fuzzCommand false fuzzCommand.positionals args es)
    (htakes : Matches.Takes ⟨[]⟩ es given) : ∃ a,
      (fuzzCommand.options.foldl addFallback given).fuzz? = some a ∧ a.SetBy es ∧ a.Fit := by
  have hproper : Proper es := exists_takes_iff.mp ⟨given, htakes⟩
  obtain ⟨-, hgives⟩ := takes_empty_iff.mp htakes
  have hstart := value?_startAt given
  have hroot := value?_outputRoot given
  have hvalue : ∀ {name v}, name ≠ "start-at" → name ≠ "output-root" →
      ((fuzzCommand.options.foldl addFallback given).value? name = some v ↔ Tells es name v) := by
    intro name v hstart hroot
    rw [value?_fallbacks given hstart hroot]
    exact value?_of_gives hgives hproper.nodup
  generalize fuzzCommand.options.foldl addFallback given = m at hstart hroot hvalue ⊢
  obtain ⟨port, hport, hportFit⟩ := exists_port hsaid hproper
  obtain ⟨startAt, hstart', hstartTold, hstartFit⟩ := exists_startAt hsaid hproper hgives
  obtain ⟨root, hroot', hrootTold⟩ := exists_outputRoot hsaid hproper hgives
  have hretention : ∀ n, m.number? "retention" = some n ↔ Tells es "retention" (.number n) := by
    intro n
    rw [Matches.number?_eq_some_iff, hvalue (by decide) (by decide)]
  refine ⟨⟨port, m.seed? "seed", startAt, m.number? "retention", root⟩,
    Matches.fuzz?_eq_some_iff.mpr ⟨?_, rfl, ?_, rfl, ?_⟩,
    ⟨hport, fun seed => ?_, hstartTold, hretention, hrootTold⟩,
    ⟨hportFit, hstartFit, fun n hn => ?_, fun seed _ => Seed.ofString_text seed⟩⟩
  · exact Matches.number?_eq_some_iff.mpr ((hvalue (by decide) (by decide)).mpr hport)
  · exact Matches.number?_eq_some_iff.mpr (hstart.trans hstart')
  · exact Matches.path?_eq_some_iff.mpr (hroot.trans hroot')
  · rw [← tells_seed_iff hsaid, ← hvalue (by decide) (by decide)]
    exact Matches.seed?_eq_some_iff
  · have hdeclares : fuzzCommand.Declares "retention" .positive := by decide
    obtain ⟨_, ⟨⟩, hlow, hhigh⟩ := number_of_tells hsaid hdeclares ((hretention n).mp hn)
    exact ⟨hlow, Nat.lt_succ_of_le hhigh⟩

end

/-! ## starting -/

theorem claim_eq_error {root directory : Path} {t t' : FileTree} {e : SessionError}
    (h : Session.claimDirectory root directory t = (.error e, t')) :
    e = .configuration (.directoryExists directory) ∨ ∃ path cause, e = .io path cause := by
  unfold Session.claimDirectory at h
  split at h
  · cases h
    exact .inl rfl
  · split at h
    · cases h
      exact .inr ⟨_, _, rfl⟩
    · split at h <;> cases h
      · exact .inl rfl
      · exact .inr ⟨_, _, rfl⟩

/-- A start with settings that are fit fails for its directory or for the files. -/
theorem start_of_fit {config : SessionConfig} {grammar : Grammar} {t t' : FileTree}
    {e : SessionError} (hstart : 1 ≤ config.startAt) (hwindow : 1 ≤ config.window)
    (h : Session.start config grammar t = (.error e, t')) :
    e = .configuration (.directoryExists (Session.directoryOf config)) ∨
      ∃ path cause, e = .io path cause := by
  have hfit : Session.validate config = .ok ⟨config.window, hwindow⟩ := by
    rw [Session.validate, if_neg (Nat.one_le_iff_ne_zero.mp hstart)]
    exact Retention.ofWindow_window ⟨config.window, hwindow⟩
  obtain ⟨r, t₁, hclaim⟩ : ∃ r t₁, Session.claimDirectory config.outputRoot
      (Session.directoryOf config) t = (r, t₁) := ⟨_, _, rfl⟩
  obtain ⟨answer, hanswer, -, hfailed, hdone⟩ := Session.start_congr grammar hfit hclaim hclaim
  rw [hanswer] at h
  cases h
  cases r with
  | ok =>
    obtain ⟨s, hs⟩ := hdone rfl
    cases hs
  | error e' =>
    cases hfailed e' rfl
    exact claim_eq_error hclaim

/-! ## all arguments -/

/-- How a session starts with some settings: its rules hold together, and if the start fails, the
directory is there already or the files do not allow it to be made. -/
def StartsOrTaken (a : FuzzArguments) (fresh : Seed) (t : FileTree) : Prop :=
  let config := sessionConfig a fresh
  ∃ grammar, Page.grammar (.fuzzing (Page.payload config.seed.text a.port)) = .ok grammar ∧
    ∀ e t', Session.start config grammar t = (.error e, t') →
      e = .configuration (.directoryExists (Session.directoryOf config)) ∨
        ∃ path cause, e = .io path cause

theorem startsOrTaken_of_fit {a : FuzzArguments} (h : a.Fit) (fresh : Seed) (t : FileTree) :
    StartsOrTaken a fresh t := by
  refine ⟨_, Page.grammar_fuzzing _, fun e t' => start_of_fit h.startAt.1 ?_⟩
  show 1 ≤ a.retention.getD Retention.standard.window
  cases hretention : a.retention with
  | none => exact Retention.standard.window_pos
  | some n => exact (h.retention n hretention).1

/-- **Which arguments are read, and what they set.**  Arguments that say proper entries are read,
and set what these tell; a numeral that is in range is proper, and no option.  Whatever is read says
proper entries; the settings are in their ranges, and a session that is started with them fails for
its directory or for the files, and for nothing else. -/
theorem read_fuzz_exact :
    (∀ args es, Says fuzzCommand false fuzzCommand.positionals args es → Proper es →
      ∃ a log, Program.fuzz.read args = .ok (.fuzz a, log) ∧ a.SetBy es) ∧
    (∀ text n least greatest, Text.Numeral text n → least ≤ n → n ≤ greatest →
      IsWord text ∧ (ValueKind.number least greatest).read text = .ok (.number n)) ∧
    ∀ args task log, Program.fuzz.read args = .ok (task, log) →
      ∃ a es, task = .fuzz a ∧ Says fuzzCommand false fuzzCommand.positionals args es ∧
        Proper es ∧ a.SetBy es ∧ a.Fit ∧
          ∀ fresh t, run .fuzz args fresh t = runFuzz a fresh t ∧ StartsOrTaken a fresh t := by
  refine ⟨fun args es hsaid hproper => ?_, fun text n least greatest hnumeral hlow hhigh =>
    ⟨isWord_of_numeral hnumeral, read_eq_ok_iff.mpr ⟨n, hnumeral, hlow, hhigh, rfl⟩⟩,
    fun args task log hread => ?_⟩
  · obtain ⟨given, htakes⟩ := exists_takes_iff.mpr hproper
    obtain ⟨a, hfuzz, hset, -⟩ := exists_setBy hsaid htakes
    exact ⟨a, _, read_fuzz_eq_ok_iff.mpr
      ⟨_, a, (ofArguments_iff wellNamed_fuzz).mpr ⟨es, given, hsaid, htakes, rfl⟩, hfuzz, rfl, rfl⟩,
      hset⟩
  · obtain ⟨m, a, hmatches, hfuzz, rfl, rfl⟩ := read_fuzz_eq_ok_iff.mp hread
    obtain ⟨es, given, hsaid, htakes, rfl⟩ := (ofArguments_iff wellNamed_fuzz).mp hmatches
    obtain ⟨b, hfuzz', hset, hfit⟩ := exists_setBy hsaid htakes
    cases hfuzz.symm.trans hfuzz'
    refine ⟨a, es, rfl, hsaid, exists_takes_iff.mp ⟨given, htakes⟩, hset, hfit, fun fresh t => ?_⟩
    refine ⟨?_, startsOrTaken_of_fit hfit fresh t⟩
    rw [run, hread]
    rfl

/-- Options in both forms, a letter, the greatest start and a port after `--`. -/
theorem read_fuzz_exact_of_mixed :
    let args := ["--retention=+020", "-v", "--seed", "1480275799.15",
      "--start-at=18446744073709551615", "--", "08080"]
    let es : List Entry := [.value "retention" .positive "+020", .flag "verbose",
      .value "seed" .seed "1480275799.15", .value "start-at" .positive "18446744073709551615",
      .value "port" .port "08080"]
    let a : FuzzArguments := ⟨8080, some ⟨"1480275799.15", by decide⟩, 18446744073709551615,
      some 20, ⟨[Path.dot]⟩⟩
    Says fuzzCommand false fuzzCommand.positionals args es ∧ Proper es ∧
      Program.fuzz.read args = .ok (.fuzz a, ⟨true, false⟩) ∧ a.SetBy es ∧ a.Fit ∧
      IsWord "+020" ∧ (ValueKind.number 1 20).read "+020" = .ok (.number 20) ∧
      ∀ fresh t, StartsOrTaken a fresh t := by
  intro args es a
  have hsaid : Says fuzzCommand false fuzzCommand.positionals args es := by
    have hverbose : Spell fuzzCommand ['v']
        [{ name := "verbose", short := some 'v', help := "Enable debug logging" }] :=
      .cons ⟨rfl, rfl⟩ .nil
    have hword : IsWord "1480275799.15" := by
      intro l ls h
      cases h
    refine @Says.attached _ _ "retention" "+020" _ _ _ _ rfl rfl ?_
    refine @Says.letters _ _ ['v'] _ _ _ (List.cons_ne_nil _ _) hverbose ?_
    refine @Says.detached _ _ "seed" _ _ _ _ _ rfl rfl hword ?_
    refine @Says.attached _ _ "start-at" "18446744073709551615" _ _ _ _ rfl rfl ?_
    exact .stop (.positional (.inl rfl) (.done true))
  have hproper : Proper es := by
    have hretention : ValueKind.positive.read "+020" = .ok (.number 20) := by cbv
    have hseed : ValueKind.seed.read "1480275799.15" =
        .ok (.seed ⟨"1480275799.15", by decide⟩) := by cbv
    have hstart : ValueKind.positive.read "18446744073709551615" =
        .ok (.number 18446744073709551615) := by cbv
    have hport : ValueKind.port.read "08080" = .ok (.number 8080) := by cbv
    refine ⟨by decide, fun name kind text hmem => ?_⟩
    simp only [es, List.mem_cons, Entry.value.injEq, reduceCtorEq, List.not_mem_nil, or_false,
      false_or] at hmem
    rcases hmem with ⟨-, rfl, rfl⟩ | ⟨-, rfl, rfl⟩ | ⟨-, rfl, rfl⟩ | ⟨-, rfl, rfl⟩
    · exact ⟨_, read_eq_ok_iff.mp hretention⟩
    · exact ⟨_, read_eq_ok_iff.mp hseed⟩
    · exact ⟨_, read_eq_ok_iff.mp hstart⟩
    · exact ⟨_, read_eq_ok_iff.mp hport⟩
  have hread : Program.fuzz.read args = .ok (.fuzz a, ⟨true, false⟩) := by cbv
  obtain ⟨haccepts, hnumerals, hall⟩ := read_fuzz_exact
  obtain ⟨b, log, hread', hset⟩ := haccepts args es hsaid hproper
  cases hread.symm.trans hread'
  obtain ⟨b, _, ⟨⟩, -, -, -, hfit, hstarts⟩ := hall args _ _ hread
  have htwenty : Text.Numeral "+020" 20 := ⟨['+'], 1, .inr rfl, by decide⟩
  obtain ⟨hword, hvalue⟩ := hnumerals "+020" 20 1 20 htwenty (by decide) (by decide)
  exact ⟨hsaid, hproper, hread, hset, hfit, hword, hvalue, fun fresh t => (hstarts fresh t).2⟩

end CommandLine

end PageFuzz
