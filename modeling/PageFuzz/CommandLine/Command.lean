import PageFuzz.Session.Seed
import PageFuzz.Text.Numeral

/-!
# Commands and their arguments

A command takes values by position and options by name.  An option is a flag or takes one value;
every value has a kind, which says how its text is read.
-/

namespace PageFuzz.CommandLine

/-- why a command is not carried out: it was asked for its help or version, or its arguments are
not right -/
inductive Refusal where
  | help
  | version
  | unknownArgument
  /-- an option or flag that is given twice -/
  | argumentConflict
  /-- a value that is missing or empty -/
  | invalidValue
  /-- a value that its kind does not accept -/
  | valueValidation
  /-- a value for a flag -/
  | tooManyValues
  | missingRequiredArgument
deriving DecidableEq, Repr

/-- To ask for help or version is no mistake. -/
def Refusal.exitCode : Refusal → Nat
  | help => 0
  | version => 0
  | _ => 2

inductive Value where
  | number (n : Nat)
  | seed (s : Seed)
  | path (p : Path)
deriving DecidableEq, Repr

inductive ValueKind where
  /-- a decimal numeral between two bounds -/
  | number (least greatest : Nat)
  | seed
  /-- any text that is not empty -/
  | path
deriving DecidableEq, Repr

namespace ValueKind

def port : ValueKind := number 1024 65535

/-- a count of 64 bits -/
def count : ValueKind := number 0 (UInt64.size - 1)

def positive : ValueKind := number 1 (UInt64.size - 1)

def read (k : ValueKind) (text : String) : Except Refusal Value :=
  match k with
  | number least greatest =>
    match Text.readNat text with
    | some n => if least ≤ n ∧ n ≤ greatest then .ok (.number n) else .error .valueValidation
    | none => .error .valueValidation
  | seed =>
    match Seed.ofString text with
    | .ok s => .ok (.seed s)
    | .error _ => .error .valueValidation
  | path => if text.isEmpty then .error .invalidValue else .ok (.path (.ofString text))

theorem read_number_eq_ok {least greatest : Nat} {text : String} {v : Value} :
    (number least greatest).read text = .ok v ↔
      ∃ n, Text.readNat text = some n ∧ least ≤ n ∧ n ≤ greatest ∧ v = .number n := by
  cases hn : Text.readNat text with
  | none => simp [read, hn]
  | some n =>
    by_cases hb : least ≤ n ∧ n ≤ greatest
    · simp [read, hn, hb, eq_comm]
    · simp only [read, hn, hb, if_false, reduceCtorEq, false_iff]
      rintro ⟨m, hm, h₁, h₂, -⟩
      cases hm
      exact hb ⟨h₁, h₂⟩

end ValueKind

/-- a value that is told by its place -/
structure Positional where
  name : String
  kind : ValueKind
  help : String
deriving DecidableEq, Repr

inductive Action where
  | flag
  | value (k : ValueKind)
  | help
  | version
deriving DecidableEq, Repr

/-- an option with a long name and perhaps a short one -/
structure Opt where
  name : String
  short : Option Char := none
  action : Action := .flag
  /-- the text that is read if the option is not given -/
  fallback : Option String := none
  help : String
deriving DecidableEq, Repr

structure Command where
  name : String
  about : String
  positionals : List Positional
  options : List Opt
deriving DecidableEq, Repr

namespace Command

def long? (c : Command) (name : String) : Option Opt := c.options.find? (·.name == name)

def short? (c : Command) (letter : Char) : Option Opt := c.options.find? (·.short == some letter)

end Command

end PageFuzz.CommandLine
