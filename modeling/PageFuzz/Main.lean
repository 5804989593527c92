import PageFuzz.CommandLine.Run
import PageFuzz.Delivery.Message

/-!
# The command line

The first argument names the program, the others are its own.  What a task can reach is read from
the disk into a file tree, the task is run on the tree, and what has changed is written back.  A
program that serves reads requests from its standard input and writes the responses to its standard
output, until the input ends.  Names of one file on the disk are read as files of their own.
-/

namespace PageFuzz.Main

open CommandLine

/-! ## from the disk -/

/-- what a directory of the disk holds; a link is kept with the path that it leads to -/
partial def readFolder (dir : String) : StateT Nat IO Folder := do
  let mut folder : Folder := .nil
  for entry in ← ((← IO.currentDir) / dir).readDir do
    let name := (Path.ofString entry.fileName).bytes
    match (← entry.path.symlinkMetadata).type with
    | .dir => folder := .dir name (← readFolder entry.path.toString) folder
    | .file =>
      let content ← IO.FS.readBinFile entry.path
      folder := .file name (← getModify (· + 1)) content folder
    | .symlink =>
      folder := .link name (.ofString (← IO.FS.realPath entry.path).toString) folder
    | .other => pure ()
  return folder

/-- a folder with another one at the end of a way of names, made where it is missing -/
def graft (inner folder : Folder) : List Name → Folder
  | [] => inner
  | n :: ns =>
    match folder.find? n with
    | some (.dir below) => folder.put n (.dir (graft inner below ns))
    | _ => folder.put n (.dir (graft inner .nil ns))

/-- add a directory of the disk to a tree, if it is one -/
def readDir (t : FileTree) (dir : String) : IO FileTree := do
  let found ← (do
    let dir := (← IO.FS.realPath dir).toString
    let (folder, next) ← (readFolder dir).run t.nextMark
    return { t with
      root := graft folder t.root (Path.ofString dir).names, nextMark := next }).toBaseIO
  match found with
  | .ok t => return t
  | .error _ => return t

/-- the tree that a task works on: the current directory and the directory of the task -/
def readTree (task : Task) : IO FileTree := do
  let here := (← IO.currentDir).toString
  let t ← readDir (FileTree.ofHere (Path.ofString here).names) here
  readDir t task.directory.display

/-! ## to the disk -/

def below (dir : String) (name : Name) : String := dir ++ "/" ++ (Path.mk name).display

def holds (folder : Folder) (name : Name) (content : ByteArray) : Bool :=
  match folder.find? name with
  | some (.file _ old) => old == content
  | _ => false

/-- write what a folder has beyond an old one -/
def writeNew (dir : String) (old : Folder) : Folder → IO Unit
  | .nil => pure ()
  | .file name _ content rest => do
    unless holds old name content do IO.FS.writeBinFile (below dir name) content
    writeNew dir old rest
  | .link _ _ rest => writeNew dir old rest
  | .dir name inner rest => do
    match old.find? name with
    | some (.dir before) => writeNew (below dir name) before inner
    | _ =>
      IO.FS.createDirAll (below dir name)
      writeNew (below dir name) .nil inner
    writeNew dir old rest

/-- remove the files that a new folder lacks -/
def removeGone (dir : String) (new : Folder) : Folder → IO Unit
  | .nil => pure ()
  | .file name _ _ rest => do
    if (new.find? name).isNone then IO.FS.removeFile (below dir name)
    removeGone dir new rest
  | .link _ _ rest => removeGone dir new rest
  | .dir name inner rest => do
    match new.find? name with
    | some (.dir after) => removeGone (below dir name) after inner
    | _ => pure ()
    removeGone dir new rest

/-- bring the disk from one tree to the next -/
def save (old new : FileTree) : IO Unit := do
  removeGone "" new.root old.root
  writeNew "" old.root new.root

/-! ## the programs -/

/-- a seed that nobody has chosen -/
def freshSeed : IO Seed := do
  let bytes ← IO.getRandomBytes 8
  match Seed.ofString (toString (bytes.foldl (fun n b => 256 * n + b.toNat) 0)) with
  | .ok seed => return seed
  | .error e => throw (IO.userError e.message)

/-- pass over the rest of the head of a message -/
partial def skipHead (input : IO.FS.Stream) : IO Unit := do
  let line ← input.getLine
  unless line.trimAscii.isEmpty do skipHead input

/-- answer the requests of a stream until it ends -/
partial def serve (input output : IO.FS.Stream) (server : Server) (t : FileTree) : IO Unit := do
  let line ← input.getLine
  if line.isEmpty then return
  match Delivery.Request.ofLine? line with
  | none => serve input output server t
  | some request =>
    skipHead input
    let (response, server, t') := server.respond request t
    save t t'
    output.write response.message
    output.flush
    serve input output server t'

/-- run a program to its end -/
def runProgram (program : Program) (args : List String) : IO UInt32 := do
  let t ← match program.read args with
    | .ok (task, _) => readTree task
    | .error _ => pure (FileTree.ofHere [])
  let (outcome, t') := run program args (← freshSeed) t
  save t t'
  match outcome with
  | .ended e =>
    IO.print e.output
    IO.eprint e.errors
    return e.code.toUInt32
  | .serving output _ server =>
    IO.print output
    (← IO.getStdout).flush
    serve (← IO.getStdin) (← IO.getStdout) server t'
    return 0
  | .aborted errors =>
    IO.eprint errors
    return 134

/-- the names of the programs, for who has named none -/
def overview : String :=
  "Programs: " ++ String.intercalate ", " (Program.all.map (·.command.name)) ++ "\n"

end PageFuzz.Main

def main (args : List String) : IO UInt32 := do
  match args with
  | [] =>
    IO.eprint PageFuzz.Main.overview
    return 2
  | name :: rest =>
    match PageFuzz.CommandLine.Program.ofName? name with
    | some program => PageFuzz.Main.runProgram program rest
    | none =>
      IO.eprint PageFuzz.Main.overview
      return 2
