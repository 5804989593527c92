import PageFuzz.CommandLine.Matches
import PageFuzz.Session.Retention

/-!
# The four programs

* `htmlfuzz`      serves a fresh page for every request;
* `htmlgen`       writes a corpus of pages;
* `htmlharness`   serves the pages of a corpus one after another;
* `htmlscan`      reports what a corpus lacks.
-/

namespace PageFuzz.CommandLine

inductive Program where
  | fuzz
  | gen
  | harness
  | scan
deriving DecidableEq, Repr

/-! ## their commands -/

/-- the options that all programs have -/
def commonOptions : List Opt := [
  { name := "verbose", short := some 'v', help := "Enable debug logging" },
  { name := "log-json", help := "Emit logs as JSON" },
  { name := "help", short := some 'h', action := .help, help := "Print help" },
  { name := "version", short := some 'V', action := .version, help := "Print version" }]

def portArgument : Positional :=
  { name := "port", kind := .port, help := "TCP port to listen on (1024-65535)" }

def directoryArgument (help : String) : Positional :=
  { name := "directory", kind := .path, help := help }

def seedOption (help : String) : Opt :=
  { name := "seed", action := .value .seed, help := help }

def fuzzCommand : Command where
  name := "htmlfuzz"
  about := "Serve a fresh grammar-generated HTML document on every request"
  positionals := [portArgument]
  options := [
    seedOption "Replay an earlier session seed (e.g. 1480275799.153212)",
    { name := "start-at", action := .value .positive, fallback := some "1",
      help := "Sequence number of the first document to serve" },
    { name := "retention", action := .value .positive,
      help := "Number of generated documents kept on disk [default: 20]" },
    { name := "output-root", action := .value .path, fallback := some ".",
      help := "Directory in which the session directory is created" }] ++ commonOptions

def genCommand : Command where
  name := "htmlgen"
  about := "Write a corpus of grammar-generated HTML pages"
  positionals := [
    directoryArgument "Existing directory to write page\x7bi\x7d.html files into",
    { name := "number-of-files", kind := .count, help := "Number of pages to generate" }]
  options := seedOption "Seed for reproducible output" :: commonOptions

def harnessCommand : Command where
  name := "htmlharness"
  about := "Replay an HTML corpus to a browser one file per request"
  positionals := [directoryArgument "Corpus directory to replay", portArgument]
  options :=
    { name := "resume",
      help := "Continue after the files recorded in the existing session log" } :: commonOptions

def scanCommand : Command where
  name := "htmlscan"
  about := "Report HTML tags and attributes missing from a corpus"
  positionals := [directoryArgument "Corpus directory to scan"]
  options := { name := "json", help := "Output as JSON" } :: commonOptions

def Program.command : Program → Command
  | fuzz => fuzzCommand
  | gen => genCommand
  | harness => harnessCommand
  | scan => scanCommand

def Program.all : List Program := [.fuzz, .gen, .harness, .scan]

/-- the program whose command has a name -/
def Program.ofName? (name : String) : Option Program := Program.all.find? (·.command.name == name)

/-! ## what they are asked to do -/

structure FuzzArguments where
  port : Nat
  seed : Option Seed
  startAt : Nat
  retention : Option Nat
  outputRoot : Path
deriving DecidableEq, Repr

structure GenArguments where
  directory : Path
  count : Nat
  seed : Option Seed
deriving DecidableEq, Repr

structure HarnessArguments where
  directory : Path
  port : Nat
  resume : Bool
deriving DecidableEq, Repr

structure ScanArguments where
  directory : Path
  json : Bool
deriving DecidableEq, Repr

/-- what may be asked of a program about its own log -/
structure LogArguments where
  verbose : Bool
  json : Bool
deriving DecidableEq, Repr

namespace Matches

def fuzz? (m : Matches) : Option FuzzArguments := do
  return ⟨← m.number? "port", m.seed? "seed", ← m.number? "start-at", m.number? "retention",
    ← m.path? "output-root"⟩

def gen? (m : Matches) : Option GenArguments := do
  return ⟨← m.path? "directory", ← m.number? "number-of-files", m.seed? "seed"⟩

def harness? (m : Matches) : Option HarnessArguments := do
  return ⟨← m.path? "directory", ← m.number? "port", m.has "resume"⟩

def scan? (m : Matches) : Option ScanArguments := do
  return ⟨← m.path? "directory", m.has "json"⟩

def log (m : Matches) : LogArguments := ⟨m.has "verbose", m.has "log-json"⟩

end Matches

inductive Task where
  | fuzz (a : FuzzArguments)
  | gen (a : GenArguments)
  | harness (a : HarnessArguments)
  | scan (a : ScanArguments)
deriving DecidableEq, Repr

/-- the directory that a task is about -/
def Task.directory : Task → Path
  | .fuzz a => a.outputRoot
  | .gen a => a.directory
  | .harness a => a.directory
  | .scan a => a.directory

/-- the task that matched arguments set a program; none if one that it needs is not there -/
def Program.task? (p : Program) (m : Matches) : Option Task :=
  match p with
  | fuzz => m.fuzz?.map .fuzz
  | gen => m.gen?.map .gen
  | harness => m.harness?.map .harness
  | scan => m.scan?.map .scan

/-- the task that a program is set by its arguments, and what they say about its log -/
def Program.read (p : Program) (args : List String) : Except Refusal (Task × LogArguments) :=
  match Matches.ofArguments p.command args with
  | .error r => .error r
  | .ok m =>
    match p.task? m with
    | some task => .ok (task, m.log)
    | none => .error .missingRequiredArgument

end PageFuzz.CommandLine
