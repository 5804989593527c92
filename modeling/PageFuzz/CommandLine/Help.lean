import PageFuzz.CommandLine.Command

/-!
# Help texts

What a command says about itself: a sentence, its usage, and its arguments and options in two
columns.
-/

namespace PageFuzz.CommandLine

/-- the version of all programs -/
def versionNumber : String := "0.1.0"

def versionText (c : Command) : String := c.name ++ " " ++ versionNumber ++ "\n"

/-- a name as a place for a value -/
def placeholder (name : String) : String := "<" ++ name ++ ">"

/-- the long form of an option, with the place of its value -/
def Opt.longForm (o : Opt) : String :=
  match o.action with
  | .value _ => "--" ++ o.name ++ " " ++ placeholder o.name
  | _ => "--" ++ o.name

/-- both forms of an option; without a short one its place stays blank -/
def Opt.forms (o : Opt) : String :=
  match o.short with
  | some l => "-" ++ String.ofList [l] ++ ", " ++ o.longForm
  | none => "    " ++ o.longForm

def Opt.helpText (o : Opt) : String :=
  match o.fallback with
  | some text => o.help ++ " [default: " ++ text ++ "]"
  | none => o.help

/-- rows in two columns, two blanks before each and at least two between them -/
def columns (rows : List (String × String)) : String :=
  let width := (rows.map (·.1.length)).foldr max 0
  String.join (rows.map fun r => "  " ++ r.1.pushn ' ' (width + 2 - r.1.length) ++ r.2 ++ "\n")

def usage (c : Command) : String :=
  "Usage: " ++ c.name ++ " [OPTIONS]" ++
    String.join (c.positionals.map fun p => " " ++ placeholder p.name)

def helpText (c : Command) : String :=
  c.about ++ "\n\n" ++ usage c ++ "\n\nArguments:\n" ++
    columns (c.positionals.map fun p => (placeholder p.name, p.help)) ++ "\nOptions:\n" ++
    columns (c.options.map fun o => (o.forms, o.helpText))

end PageFuzz.CommandLine
