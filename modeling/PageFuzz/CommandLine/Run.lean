import PageFuzz.CommandLine.Failure
import PageFuzz.CommandLine.Help
import PageFuzz.CommandLine.Programs
import PageFuzz.Corpus.Basic
import PageFuzz.Coverage.Scanner
import PageFuzz.Delivery.Server
import PageFuzz.Page.Flavour
import PageFuzz.Page.Template

/-!
# Running a program

A program reads its arguments, does its work on the files, and either comes to an end or goes on
to serve requests.
-/

namespace PageFuzz.CommandLine

/-- the end of a program: its exit code and what it has written -/
structure Ending where
  code : Nat
  output : String
  errors : String
deriving DecidableEq, Repr

/-- what goes on serving -/
inductive Server where
  | session (s : Session)
  | replay (h : Replay.Harness)

inductive Outcome where
  | ended (e : Ending)
  /-- after its first words the program serves requests at a port -/
  | serving (output : String) (port : Nat) (server : Server)
  /-- the program was cut off and has no exit code -/
  | aborted (errors : String)

/-- answer a request -/
def Server.respond (server : Server) (r : Delivery.Request) (t : FileTree) :
    Delivery.Response × Server × FileTree :=
  match server with
  | session s =>
    let (response, s, t) := Delivery.serveSession FileTree.storage r (s, t)
    (response, session s, t)
  | replay h =>
    let (response, h, t) := Delivery.serveReplay r (h, t)
    (response, replay h, t)

def succeeded (output : String) : Outcome := .ended ⟨0, output, ""⟩

/-- the end after a failure, with the chain of its causes -/
def failed (causes : List String) : Outcome := .ended ⟨1, "", failureReport causes⟩

/-- the end without a task -/
def refused (c : Command) : Refusal → Outcome
  | .help => succeeded (helpText c)
  | .version => succeeded (versionText c)
  | r => .ended ⟨r.exitCode, "", usage c ++ "\n"⟩

/-- the words before serving -/
def invitation (port : Nat) : String :=
  "Point the web browser to be tested at http://" ++ Delivery.listenAddress port ++ "\n"

/-- what a failure of the rules is called -/
def grammarContext : String := "building HTML grammar"

/-- the settings of a session; `fresh` is its seed if none is given -/
def sessionConfig (a : FuzzArguments) (fresh : Seed) : SessionConfig where
  outputRoot := a.outputRoot
  seed := a.seed.getD fresh
  window := a.retention.getD Retention.standard.window
  startAt := a.startAt

def runFuzz (a : FuzzArguments) (fresh : Seed) (t : FileTree) : Outcome × FileTree :=
  let config := sessionConfig a fresh
  match Page.grammar (.fuzzing (Page.payload config.seed.text a.port)) with
  | .error fault => (failed [grammarContext, fault.message], t)
  | .ok grammar =>
    match Session.start config grammar t with
    | (.error e, t) => (failed (("starting session " ++ config.seed.text) :: e.causes), t)
    | (.ok s, t) =>
      (.serving ("Session seed: " ++ config.seed.text ++ "\n" ++ invitation a.port) a.port
        (.session s), t)

/-- the most pages whose paths one list can hold -/
def mostPages : Nat := 384307168202282325

/-- the end of a program that asks for more memory than there can be -/
def overflowed : Outcome := .ended ⟨101, "", "capacity overflow\n"⟩

/-- the bytes that one path takes in a list -/
def pathBytes : Nat := 24

/-- the bytes that a list of paths may take, 4 GiB -/
def memoryBytes : Nat := 1 <<< 32

/-- the end of a program that asks for more memory than it is given -/
def outOfMemory (bytes : Nat) : Outcome :=
  .aborted ("memory allocation of " ++ toString bytes ++ " bytes failed\n")

def runGen (a : GenArguments) (fresh : Seed) (t : FileTree) : Outcome × FileTree :=
  let seed := a.seed.getD fresh
  if t.isDir a.directory && mostPages < a.count then (overflowed, t)
  else if t.isDir a.directory && memoryBytes < pathBytes * a.count then
    (outOfMemory (pathBytes * a.count), t)
  else
    match Page.grammar .plain with
    | .error fault => (failed [grammarContext, fault.message], t)
    | .ok grammar =>
      match Corpus.generate a.directory a.count ⟨grammar, {}⟩ Page.startSymbol .uniform
        seed.stream t with
      | (.error e, _, t) => (failed e.causes, t)
      | (.ok written, _, t) =>
        (succeeded ("Wrote " ++ toString written.length ++ " pages to " ++ a.directory.display ++
          " (seed " ++ seed.text ++ ")\n"), t)

def runHarness (a : HarnessArguments) (t : FileTree) : Outcome × FileTree :=
  match Replay.Harness.openAt a.directory (.ofString (Replay.Log.fileName a.port)) a.resume t with
  | (.error e, t) => (failed e.causes, t)
  | (.ok h, t) =>
    (.serving ("Found " ++ toString h.files.length ++ " files in corpus, " ++
      toString h.remaining ++ " left to serve\n" ++ invitation a.port) a.port (.replay h), t)

def runScan (a : ScanArguments) (t : FileTree) : Outcome :=
  match Coverage.scan .reference t a.directory with
  | .error e => failed e.causes
  | .ok report => succeeded (if a.json then report.jsonText ++ "\n" else report.text)

def runTask (task : Task) (fresh : Seed) (t : FileTree) : Outcome × FileTree :=
  match task with
  | .fuzz a => runFuzz a fresh t
  | .gen a => runGen a fresh t
  | .harness a => runHarness a t
  | .scan a => (runScan a t, t)

def run (p : Program) (args : List String) (fresh : Seed) (t : FileTree) : Outcome × FileTree :=
  match p.read args with
  | .error r => (refused p.command r, t)
  | .ok (task, _) => runTask task fresh t

end PageFuzz.CommandLine
