import PageFuzz.Derivation.Expander
import PageFuzz.Derivation.Uniform
import PageFuzz.Files.Storage
import PageFuzz.Page.Start
import PageFuzz.Session.Error
import PageFuzz.Session.Retention
import PageFuzz.Session.Seed

/-!
# Sessions

A session writes numbered pages into one directory, which carries the name of its seed.  Every
event takes the next number, whether its page succeeds or not, and draws on from where the event
before it left the random stream; so what a number stands for depends on the seed and on nothing
that happened to the files.

* `start`      checks the settings, makes the directory and runs up to the first number;
* `generate`   one event: a page is derived and written, and the page that left the window goes;
* `stop`       the end.
-/

namespace PageFuzz

structure SessionConfig where
  outputRoot : Path := ⟨[Path.dot]⟩
  seed : Seed
  window : Nat := Retention.standard.window
  startSymbol : String := Page.startSymbol
  limits : Limits := {}
  startAt : Nat := 1

/-- a page of a session -/
structure Artifact where
  number : Nat
  seed : Seed
  content : String
  path : Path
deriving DecidableEq

structure Session where
  seed : Seed
  stream : Random.RandomStream
  expander : Expander
  startSymbol : String
  directory : Path
  retention : Retention
  /-- the number of the last event -/
  counter : Nat
  state : Lifecycle

namespace Session

/-! ## events -/

/-- Derive the page of the next number. -/
def draw (s : Session) : Except ExpansionError String × Session :=
  let result := s.expander.generate .uniform s.startSymbol s.stream
  (result.1, { s with stream := result.2, counter := s.counter + 1 })

/-- Go past some pages without writing them. -/
def skip : Nat → Session → Session
  | 0, s => s
  | n + 1, s => skip n s.draw.2

theorem counter_skip (n : Nat) (s : Session) : (skip n s).counter = s.counter + n := by
  induction n generalizing s with
  | zero => rfl
  | succ n ih =>
    simp only [skip, ih, draw]
    omega

theorem skip_add (m n : Nat) (s : Session) : skip (m + n) s = skip n (skip m s) := by
  induction m generalizing s with
  | zero => simp [skip]
  | succ m ih =>
    rw [Nat.succ_add]
    exact ih _

def artifactName (seed : Seed) (n : Nat) : String := seed.text ++ "." ++ toString n ++ ".html"

def artifactPath (s : Session) (n : Nat) : Path :=
  s.directory.join (.ofString (artifactName s.seed n))

variable {σ : Type}

/-- Write a page that was derived. -/
def persist (store : Storage σ) (s : Session) (files : σ) (content : String) :
    Except SessionError Artifact × σ :=
  let path := s.artifactPath s.counter
  match store.write files path content with
  | (.ok (), files) => (.ok ⟨s.counter, s.seed, content, path⟩, files)
  | (.error cause, files) => (.error (.io path cause), files)

/-- Remove the page that has left the window; one that is not there is no fault. -/
def evict (store : Storage σ) (s : Session) (files : σ) : Except SessionError Unit × σ :=
  match s.retention.evictee s.counter with
  | none => (.ok (), files)
  | some n =>
    let path := s.artifactPath n
    match store.remove files path with
    | (.ok (), files) => (.ok (), files)
    | (.error .notFound, files) => (.ok (), files)
    | (.error cause, files) => (.error (.io path cause), files)

/-- One event.  A page that cannot be removed is reported before anything else. -/
def generate (store : Storage σ) (s : Session) (files : σ) :
    Except SessionError Artifact × Session × σ :=
  if s.state ≠ .running then (.error (.notRunning s.state), s, files)
  else
    let drawn := s.draw
    let written : Except SessionError Artifact × σ :=
      match drawn.1 with
      | .error cause => (.error (.expansion cause), files)
      | .ok content => persist store drawn.2 files content
    let evicted := evict store drawn.2 written.2
    match evicted.1 with
    | .error e => (.error e, drawn.2, evicted.2)
    | .ok () => (written.1, drawn.2, evicted.2)

def transition (s : Session) (target : Lifecycle) : Except SessionError Session :=
  (s.state.advance target).map fun state => { s with state }

def stop (s : Session) : Except SessionError Session := s.transition .stopped

theorem generate_of_not_running {s : Session} (store : Storage σ) (files : σ)
    (h : s.state ≠ .running) :
    s.generate store files = (.error (.notRunning s.state), s, files) := by
  simp [generate, h]

/-- An event of a running session takes one number and the draws of one page. -/
theorem session_generate {s : Session} (store : Storage σ) (files : σ) (h : s.state = .running) :
    (s.generate store files).2.1 = s.draw.2 := by
  simp only [generate, h, ne_eq, not_true_eq_false, if_false]
  split <;> rfl

/-! ## the start -/

/-- a session that has not started, in a directory that is its own -/
def prepare (config : SessionConfig) (grammar : Grammar) (directory : Path)
    (retention : Retention) : Session where
  seed := config.seed
  stream := config.seed.stream
  expander := ⟨grammar, config.limits⟩
  startSymbol := config.startSymbol
  directory := directory
  retention := retention
  counter := 0
  state := .init

/-- what the settings say about retention, unless they are unfit -/
def validate (config : SessionConfig) : Except ConfigError Retention :=
  if config.startAt = 0 then .error .invalidStartPosition else Retention.ofWindow config.window

/-- Make the directory of a session, which nobody may have made before. -/
def claimDirectory (root directory : Path) (t : FileTree) : Except SessionError Unit × FileTree :=
  if t.exists? directory then (.error (.configuration (.directoryExists directory)), t)
  else
    match t.makeDirs root with
    | (.error cause, t) => (.error (.io root cause), t)
    | (.ok (), t) =>
      match t.makeDir directory with
      | .ok t => (.ok (), t)
      | .error .alreadyExists => (.error (.configuration (.directoryExists directory)), t)
      | .error cause => (.error (.io directory cause), t)

def start (config : SessionConfig) (grammar : Grammar) (t : FileTree) :
    Except SessionError Session × FileTree :=
  match validate config with
  | .error fault => (.error (.configuration fault), t)
  | .ok retention =>
    let directory := config.outputRoot.join (.ofString config.seed.text)
    match claimDirectory config.outputRoot directory t with
    | (.error e, t) => (.error e, t)
    | (.ok (), t) =>
      ((skip (config.startAt - 1) (prepare config grammar directory retention)).transition .running,
        t)

end Session

end PageFuzz
