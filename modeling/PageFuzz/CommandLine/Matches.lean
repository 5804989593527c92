import PageFuzz.CommandLine.Command

/-!
# Matching arguments

Arguments are read from left to right.  A value is looked at only when the next argument that the
command knows is met, or the end: until then it is pending, and an argument that the command does
not know is reported before it.
-/

namespace PageFuzz.CommandLine

/-- an option or positional whose value has not been looked at, with its text if it has one -/
structure Pending where
  name : String
  kind : ValueKind
  text : Option String
deriving DecidableEq, Repr

/-- What has been given: names with their values, flags without one. -/
structure Matches where
  found : List (String × Option Value)
deriving DecidableEq, Repr

namespace Matches

def has (m : Matches) (name : String) : Bool := m.found.any (·.1 == name)

def value? (m : Matches) (name : String) : Option Value := (m.found.lookup name).join

def number? (m : Matches) (name : String) : Option Nat :=
  match m.value? name with
  | some (.number n) => some n
  | _ => none

def seed? (m : Matches) (name : String) : Option Seed :=
  match m.value? name with
  | some (.seed s) => some s
  | _ => none

def path? (m : Matches) (name : String) : Option Path :=
  match m.value? name with
  | some (.path p) => some p
  | _ => none

/-- add what nobody may give twice -/
def add (m : Matches) (name : String) (v : Option Value) : Except Refusal Matches :=
  if m.has name then .error .argumentConflict else .ok ⟨m.found ++ [(name, v)]⟩

/-- Look at a value: that it is there, that it is the first for its name, and what it says. -/
def accept (m : Matches) (p : Pending) : Except Refusal Matches :=
  match p.text with
  | none => .error .invalidValue
  | some text =>
    if m.has p.name then .error .argumentConflict
    else
      match p.kind.read text with
      | .error r => .error r
      | .ok v => m.add p.name (some v)

end Matches

/-- in the middle of a list of arguments -/
structure Progress where
  given : Matches
  pending : Option Pending
  /-- the positionals that have not been given -/
  awaited : List Positional
  /-- all that follows is positional -/
  trailing : Bool

namespace Progress

/-- look at the pending value, if there is one -/
def settle (s : Progress) : Except Refusal Progress :=
  match s.pending with
  | none => .ok s
  | some p => (s.given.accept p).map fun m => { s with given := m, pending := none }

/-- an argument in the place of the next positional -/
def positional (s : Progress) (text : String) : Except Refusal Progress :=
  match s.awaited with
  | [] => .error .unknownArgument
  | p :: ps =>
    s.settle.map fun s => { s with pending := some ⟨p.name, p.kind, some text⟩, awaited := ps }

/-- a flag, or the wish for help or version -/
def plain (s : Progress) (name : String) (action : Action) : Except Refusal Progress :=
  match s.settle with
  | .error r => .error r
  | .ok s =>
    match action with
    | .help => .error .help
    | .version => .error .version
    | _ => (s.given.add name none).map fun m => { s with given := m }

/-- an option by its long name, with its value if one is attached -/
def long (c : Command) (s : Progress) (name : String) (attached : Option String) :
    Except Refusal Progress :=
  match c.long? name with
  | none => .error .unknownArgument
  | some o =>
    match o.action, attached with
    | .value k, some text =>
      match s.settle with
      | .error r => .error r
      | .ok s => (s.given.accept ⟨name, k, some text⟩).map fun m => { s with given := m }
    | .value k, none => s.settle.map fun s => { s with pending := some ⟨name, k, none⟩ }
    | _, some _ => .error .tooManyValues
    | action, none => s.plain name action

/-- flags by their letters, one after another -/
def letters (c : Command) : Progress → List Char → Except Refusal Progress
  | s, [] => .ok s
  | s, l :: ls =>
    match c.short? l with
    | none => .error .unknownArgument
    | some o =>
      match s.plain o.name o.action with
      | .error r => .error r
      | .ok s => letters c s ls

/-- an argument that is no option: the value that is waited for, or a positional -/
def word (s : Progress) (text : String) : Except Refusal Progress :=
  match s.pending with
  | some ⟨name, kind, none⟩ => .ok { s with pending := some ⟨name, kind, some text⟩ }
  | _ => s.positional text

def step (c : Command) (s : Progress) (arg : String) : Except Refusal Progress :=
  if s.trailing then s.positional arg
  else
    match arg.toList with
    | ['-', '-'] => .ok { s with trailing := true }
    | '-' :: '-' :: body =>
      let name := String.ofList (body.takeWhile (· != '='))
      match body.dropWhile (· != '=') with
      | [] => s.long c name none
      | _ :: text => s.long c name (some (String.ofList text))
    | '-' :: l :: ls => s.letters c (l :: ls)
    | _ => s.word arg

def start (c : Command) : Progress := ⟨⟨[]⟩, none, c.positionals, false⟩

end Progress

/-- read arguments one after another -/
def readAll (c : Command) : Progress → List String → Except Refusal Progress
  | s, [] => s.settle
  | s, arg :: args =>
    match s.step c arg with
    | .error r => .error r
    | .ok s => readAll c s args

/-- what an option says if it is not given -/
def addFallback (m : Matches) (o : Opt) : Matches :=
  match o.action, o.fallback with
  | .value k, some text =>
    if m.has o.name then m
    else
      match k.read text with
      | .ok v => ⟨m.found ++ [(o.name, some v)]⟩
      | .error _ => m
  | _, _ => m

/-- Match arguments with a command.  What is missing is reported last. -/
def Matches.ofArguments (c : Command) (args : List String) : Except Refusal Matches :=
  match readAll c (.start c) args with
  | .error r => .error r
  | .ok s =>
    if s.awaited.isEmpty then .ok (c.options.foldl addFallback s.given)
    else .error .missingRequiredArgument

end PageFuzz.CommandLine
