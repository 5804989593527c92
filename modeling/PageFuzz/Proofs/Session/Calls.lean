import Mathlib
import PageFuzz.Proofs.Session.Claim

/-!
# Calls to a session

A session that has started is asked for pages and is stopped at some point.  Every request for a
page takes one number and the draws of one page, and comes to that page, in its file, or to an
error that leaves the session running; after the stop every call is refused and nothing changes.
The writes and removals of each request may fail, and a write that fails may leave anything behind
that is a file.

* `Tidy`               the directory is there, and what has the name of a page in it is a file;
* `Hazard.Fair`        what a request may meet: faults and changes that leave the directory tidy;
* `tidy_generate`      one request for a page, on a tidy directory;
* `Call`, `call`       one call, and what comes of it;
* `call_of_stopped`    a call after the stop;
* `along_calls`        the invariant of all calls up to the stop;
* `calls_lifecycle`    the life of a session from its start on.
-/

namespace PageFuzz.Session

/-! ## tidy directories -/

/-- The directory is there, with one entry for each name, and whatever has the name of a page is a
file. -/
structure Tidy (dir : Path) (seed : Seed) (t : FileTree) (f : Folder) : Prop where
  holds : t.Holds dir f
  nodup : f.names.Nodup
  kind_eq : ∀ n node, f.find? (fileName seed n) = some node → node.kind = .file

section
variable {dir : Path} {seed : Seed} {t t' : FileTree} {f : Folder}

theorem tidy_empty (seed : Seed) (h : t.Holds dir .nil) : Tidy dir seed t .nil :=
  ⟨h, List.nodup_nil, nofun⟩

theorem Tidy.give (h : Tidy dir seed t f) (n fresh : Nat) (content : ByteArray)
    (hholds : t'.Holds dir (f.give (fileName seed n) fresh content)) :
    Tidy dir seed t' (f.give (fileName seed n) fresh content) where
  holds := hholds
  nodup := by
    rw [Folder.names_give]
    split
    · exact h.nodup
    · next hmem => exact List.concat_eq_append ▸ h.nodup.concat hmem
  kind_eq := by
    intro m node hnode
    by_cases hname : fileName seed n = fileName seed m
    · have hfile : ∃ mark, (f.give (fileName seed n) fresh content).find? (fileName seed n) =
          some (.file mark content) := Folder.find?_give_self
      obtain ⟨mark, hfile⟩ := hfile
      rw [← hname, hfile] at hnode
      cases hnode
      rfl
    · have hkind :
          ((f.give (fileName seed n) fresh content).find? (fileName seed m)).map Node.kind =
            (f.find? (fileName seed m)).map Node.kind := Folder.kind_give_of_ne hname
      rw [hnode] at hkind
      obtain ⟨old, hold, hsame⟩ := Option.map_eq_some_iff.mp hkind.symm
      rw [← hsame]
      exact h.kind_eq m old hold

theorem Tidy.erase (h : Tidy dir seed t f) (n : Nat)
    (hholds : t'.Holds dir (f.erase (fileName seed n))) :
    Tidy dir seed t' (f.erase (fileName seed n)) where
  holds := hholds
  nodup := by
    rw [Folder.names_erase]
    exact h.nodup.erase _
  kind_eq := by
    intro m node hnode
    by_cases hname : fileName seed n = fileName seed m
    · have hgone : fileName seed m ∉ (f.erase (fileName seed n)).names := by
        rw [Folder.names_erase, hname]
        exact h.nodup.not_mem_erase
      rw [Folder.find?_eq_none.mpr hgone] at hnode
      cases hnode
    · rw [Folder.find?_erase_of_ne hname] at hnode
      exact h.kind_eq m node hnode

/-- A change of the tree that keeps the directory tidy; what the files of the pages hold may be
another thing afterwards. -/
def KeepsTidy (dir : Path) (seed : Seed) (change : FileTree → FileTree) : Prop :=
  ∀ t f, Tidy dir seed t f → ∃ f', Tidy dir seed (change t) f'

/-- a change of the tree that keeps the directory tidy and every page as it is -/
def KeepsPages (dir : Path) (seed : Seed) (change : FileTree → FileTree) : Prop :=
  ∀ t f, Tidy dir seed t f → ∃ f', Tidy dir seed (change t) f' ∧
    ∀ n, f'.find? (fileName seed n) = f.find? (fileName seed n)

/-- What a request may meet.  Before its write, or as what a write that fails has left, any change
that keeps the directory tidy; before its removal, changes that do not touch the pages. -/
structure Hazard.Fair (z : Hazard) (dir : Path) (seed : Seed) : Prop where
  beforeWrite : KeepsTidy dir seed z.beforeWrite
  beforeRemove : KeepsPages dir seed z.beforeRemove

/-- A write that has succeeded has put its text into the directory. -/
theorem Tidy.write (h : Tidy dir seed t f) (n : Nat) (text : String) {r : Except IoCause Unit}
    (hw : FileTree.storage.write t (dir.join ⟨fileName seed n⟩) text = (r, t')) :
    ∃ f', Tidy dir seed t' f' ∧ (r = .ok () → ¬ dir.TooLong (fileName seed n) ∧
      ∃ mark, f'.find? (fileName seed n) = some (.file mark text.toByteArray)) := by
  have hstorage : t.after (t.writeFile (dir.join ⟨fileName seed n⟩) text.toByteArray) = (r, t') :=
    hw
  have hwritten := h.holds.writeFile (isFileName seed n) (h.kind_eq n) text.toByteArray
  rcases hwritten with ⟨-, herror⟩ | ⟨hfits, t₁, hok, hholds⟩
  · rw [herror] at hstorage
    cases hstorage
    exact ⟨f, h, nofun⟩
  · rw [hok] at hstorage
    cases hstorage
    exact ⟨_, h.give n _ _ hholds, fun _ => ⟨hfits, Folder.find?_give_self⟩⟩

/-- A removal touches no other page. -/
theorem Tidy.remove (h : Tidy dir seed t f) (n : Nat) :
    ∃ f', Tidy dir seed (FileTree.storage.remove t (dir.join ⟨fileName seed n⟩)).2 f' ∧
      ∀ m ≠ n, f'.find? (fileName seed m) = f.find? (fileName seed m) := by
  have hstorage : FileTree.storage.remove t (dir.join ⟨fileName seed n⟩) =
      t.after (t.removeFile (dir.join ⟨fileName seed n⟩)) := rfl
  rw [hstorage]
  cases hremove : t.removeFile (dir.join ⟨fileName seed n⟩) with
  | error cause => exact ⟨f, h, fun _ _ => rfl⟩
  | ok t₁ =>
    obtain ⟨-, hholds⟩ := h.holds.removeFile (isFileName seed n) (h.kind_eq n) hremove
    refine ⟨_, h.erase n hholds, fun m hm => ?_⟩
    exact Folder.find?_erase_of_ne (fun hname => hm (fileName_injective hname).symm) f

/-- Half of a page is left behind where a write has failed. -/
theorem keepsTidy_write (dir : Path) (seed : Seed) (n : Nat) (text : String) :
    KeepsTidy dir seed fun t => (FileTree.storage.write t (dir.join ⟨fileName seed n⟩) text).2 := by
  intro t f h
  obtain ⟨f', hf', -⟩ := h.write n text rfl
  exact ⟨f', hf'⟩

end

/-! ## one request for a page -/

/-- The page has its number and its text, which its file holds, or the error is one that the session
survives. -/
def Delivers (n : Nat) (drawn : Except ExpansionError String) (files : FileTree) :
    Except SessionError Artifact → Prop
  | .ok page => page.number = n ∧ drawn = .ok page.content ∧
      files.contents page.path = .ok page.content.toByteArray
  | .error e => e.isRecoverable = true

theorem recoverable_of_tells {n : Nat} {drawn : Except ExpansionError String} {e : SessionError}
    (h : Tells n drawn (.error e)) : e.isRecoverable = true := by
  cases e with
  | expansion cause => rfl
  | io path cause => rfl
  | configuration fault => exact h.elim
  | illegalTransition source target => exact h.elim
  | notRunning state => exact h.elim

/-- A page that is answered was written. -/
theorem written_of_generate {σ : Type} (store : Storage σ) {s : Session} (files : σ)
    (hrun : s.state = .running) {page : Artifact}
    (h : (s.generate store files).1 = .ok page) : (written store s files).1 = .ok page := by
  rw [generate_eq store files hrun] at h
  dsimp only at h
  split at h
  · cases h
  · exact h

section
variable {z : Hazard} {s : Session} {t : FileTree} {f : Folder}

/-- the directory after the first half of a request -/
theorem tidy_written (hz : z.Fair s.directory s.seed) (h : Tidy s.directory s.seed t f) :
    ∃ f', Tidy s.directory s.seed (written z.storage s t).2 f' ∧
      ∀ page, (written z.storage s t).1 = .ok page →
        page.number = s.counter + 1 ∧ page.path = s.artifactPath (s.counter + 1) ∧
        s.draw.1 = .ok page.content ∧ ¬ s.directory.TooLong (fileName s.seed (s.counter + 1)) ∧
        ∃ mark, f'.find? (fileName s.seed (s.counter + 1)) =
          some (.file mark page.content.toByteArray) := by
  unfold written
  cases hd : s.draw.1 with
  | error cause =>
    refine ⟨f, h, fun page hpage => ?_⟩
    cases hpage
  | ok content =>
    have hpath : s.draw.2.artifactPath s.draw.2.counter =
        s.directory.join ⟨fileName s.seed (s.counter + 1)⟩ := rfl
    obtain ⟨f₁, hf₁⟩ := hz.beforeWrite t f h
    dsimp only
    rw [persist, hpath]
    cases hcause : z.write with
    | some cause =>
      have hfails : z.storage.write t (s.directory.join ⟨fileName s.seed (s.counter + 1)⟩) content =
          (.error cause, z.beforeWrite t) := by
        rw [Hazard.storage, hcause]
      rw [hfails]
      refine ⟨f₁, hf₁, fun page hpage => ?_⟩
      cases hpage
    | none =>
      have htree : z.storage.write t (s.directory.join ⟨fileName s.seed (s.counter + 1)⟩) content =
          FileTree.storage.write (z.beforeWrite t)
            (s.directory.join ⟨fileName s.seed (s.counter + 1)⟩) content := by
        rw [Hazard.storage, hcause]
      rw [htree]
      cases hw : FileTree.storage.write (z.beforeWrite t)
          (s.directory.join ⟨fileName s.seed (s.counter + 1)⟩) content with
      | mk r t₁ =>
        obtain ⟨f', hf', hin⟩ := hf₁.write _ content hw
        cases r with
        | error cause =>
          refine ⟨f', hf', fun page hpage => ?_⟩
          cases hpage
        | ok =>
          refine ⟨f', hf', fun page hpage => ?_⟩
          cases hpage
          exact ⟨rfl, rfl, rfl, hin rfl⟩

/-- A removal, with what it meets, leaves the directory tidy and touches no other page. -/
theorem tidy_removed (hz : z.Fair s.directory s.seed) (h : Tidy s.directory s.seed t f) (n : Nat) :
    ∃ f', Tidy s.directory s.seed (z.storage.remove t (s.artifactPath n)).2 f' ∧
      ∀ m ≠ n, f'.find? (fileName s.seed m) = f.find? (fileName s.seed m) := by
  obtain ⟨f₁, hf₁, hsame⟩ := hz.beforeRemove t f h
  rw [Hazard.storage]
  cases z.remove with
  | some cause => exact ⟨f₁, hf₁, fun m _ => hsame m⟩
  | none =>
    obtain ⟨f', hf', hothers⟩ := hf₁.remove n
    exact ⟨f', hf', fun m hm => (hothers m hm).trans (hsame m)⟩

/-- **One request.**  The directory stays tidy, and the page that is answered is in its file: the
page that is removed is another one, because the window has room for the last. -/
theorem tidy_generate (hrun : s.state = .running) (hz : z.Fair s.directory s.seed)
    (h : Tidy s.directory s.seed t f) :
    (∃ f', Tidy s.directory s.seed (s.generate z.storage t).2.2 f') ∧
      Delivers (s.counter + 1) s.draw.1 (s.generate z.storage t).2.2
        (s.generate z.storage t).1 := by
  obtain ⟨f₁, hf₁, hpage⟩ := tidy_written hz h
  have hremoved : ∃ f', Tidy s.directory s.seed (s.generate z.storage t).2.2 f' ∧
      f'.find? (fileName s.seed (s.counter + 1)) = f₁.find? (fileName s.seed (s.counter + 1)) := by
    rw [files_generate z.storage t hrun]
    cases he : s.retention.evictee (s.counter + 1) with
    | none => exact ⟨f₁, hf₁, rfl⟩
    | some n =>
      obtain ⟨-, hn⟩ := Retention.evictee_eq_some.mp he
      have hwindow := s.retention.window_pos
      obtain ⟨f', hf', hothers⟩ := tidy_removed hz hf₁ n
      exact ⟨f', hf', hothers _ (by omega)⟩
  obtain ⟨f', hf', hsame⟩ := hremoved
  refine ⟨⟨f', hf'⟩, ?_⟩
  cases hanswer : (s.generate z.storage t).1 with
  | error e => exact recoverable_of_tells (hanswer ▸ generate_tells z.storage t hrun)
  | ok page =>
    obtain ⟨hnumber, hpath, hdrawn, hfits, mark, hfile⟩ :=
      hpage page (written_of_generate z.storage t hrun hanswer)
    refine ⟨hnumber, hdrawn, ?_⟩
    rw [hpath, artifactPath_eq]
    exact hf'.holds.contents (isFileName _ _) (hsame.trans hfile) hfits

end

/-! ## calls -/

/-- what a session is asked, and what a request for a page meets -/
inductive Call where
  | generate (hazard : Hazard)
  | stop

def Call.isGenerate : Call → Bool
  | generate _ => true
  | stop => false

/-- the error of a call that comes after the stop -/
def Call.refusal : Call → SessionError
  | generate _ => .notRunning .stopped
  | stop => .illegalTransition .stopped .stopped

/-- One call: what it answers, and the session and the files after it.  A stop that fails leaves the
session as it is. -/
def call (c : Call) (now : Session × FileTree) :
    Except SessionError (Option Artifact) × Session × FileTree :=
  match c with
  | .generate z =>
    let event := now.1.generate z.storage now.2
    (event.1.map some, event.2)
  | .stop =>
    match now.1.stop with
    | .ok s => (.ok none, s, now.2)
    | .error e => (.error e, now)

/-- the session and the files after some calls -/
def after (calls : List Call) (now : Session × FileTree) : Session × FileTree :=
  calls.foldl (fun now c => (call c now).2) now

theorem after_append (calls more : List Call) (now : Session × FileTree) :
    after (calls ++ more) now = after more (after calls now) := List.foldl_append

/-- A call after the stop is refused and changes nothing. -/
theorem call_of_stopped {now : Session × FileTree} (h : now.1.state = .stopped) (c : Call) :
    call c now = (.error c.refusal, now) := by
  cases c with
  | generate z =>
    have hrun : now.1.state ≠ .running := by
      rw [h]
      decide
    rw [call, generate_of_not_running z.storage now.2 hrun, h]
    rfl
  | stop =>
    have hstop : now.1.stop = .error (.illegalTransition .stopped .stopped) := by
      rw [stop, transition, h]
      rfl
    rw [call, hstop]
    rfl

theorem after_of_stopped {now : Session × FileTree} (h : now.1.state = .stopped)
    (calls : List Call) : after calls now = now := by
  induction calls with
  | nil => rfl
  | cons c calls ih =>
    rw [after, List.foldl_cons, call_of_stopped h c]
    exact ih

/-- The first stop ends a session that runs. -/
theorem call_stop_of_running {now : Session × FileTree} (h : now.1.state = .running) :
    call .stop now = (.ok none, { now.1 with state := .stopped }, now.2) := by
  have hstop : now.1.stop = .ok { now.1 with state := .stopped } := by
    rw [stop, transition, h]
    rfl
  rw [call, hstop]

/-- A request to a session that runs takes one number and the draws of one page. -/
theorem call_generate_of_onCourse {seed : Seed} {grammar : Grammar} {limits : Limits}
    {startSymbol : String} {now : Session × FileTree} {f : Folder} {z : Hazard}
    (hcourse : OnCourse seed grammar limits startSymbol now.1) (hrun : now.1.state = .running)
    (hz : z.Fair now.1.directory now.1.seed) (h : Tidy now.1.directory now.1.seed now.2 f) :
    let drawn := (Expander.mk grammar limits).generate .uniform startSymbol now.1.stream
    ∃ answer files, call (.generate z) now =
        (answer.map some, { now.1 with counter := now.1.counter + 1, stream := drawn.2 }, files) ∧
      Delivers (now.1.counter + 1) drawn.1 files answer := by
  intro drawn
  let event := now.1.generate z.storage now.2
  have hdrawn : now.1.expander.generate .uniform now.1.startSymbol now.1.stream = drawn := by
    rw [hcourse.expander_eq, hcourse.startSymbol_eq]
  have hsession : event.2.1 =
      { now.1 with counter := now.1.counter + 1, stream := drawn.2 } := by
    rw [← hdrawn]
    exact session_generate z.storage now.2 hrun
  have hpage : now.1.draw.1 = drawn.1 := congrArg Prod.fst hdrawn
  obtain ⟨-, hdelivers⟩ := tidy_generate hrun hz h
  rw [hpage] at hdelivers
  refine ⟨event.1, event.2.2, ?_, hdelivers⟩
  rw [← hsession]
  rfl

/-! ## sequences of calls -/

/-- Up to the stop the calls go past pages, one for each, and the directory stays tidy. -/
theorem along_calls {s : Session} {t : FileTree} {f : Folder} (hrun : s.state = .running)
    (htidy : Tidy s.directory s.seed t f) {calls : List Call} (hstop : .stop ∉ calls)
    (hfair : ∀ z, .generate z ∈ calls → z.Fair s.directory s.seed) :
    (after calls (s, t)).1 = skip calls.length s ∧
      ∃ f', Tidy s.directory s.seed (after calls (s, t)).2 f' := by
  induction calls using List.reverseRecOn with
  | nil => exact ⟨rfl, f, htidy⟩
  | append_singleton calls c ih =>
    simp only [List.mem_append, List.mem_singleton, not_or] at hstop hfair
    obtain ⟨hsession, f', hf'⟩ := ih hstop.1 fun z hz => hfair z (.inl hz)
    cases c with
    | stop => exact absurd rfl hstop.2
    | generate z =>
      let now := after calls (s, t)
      have hnow : now.1.state = .running := by rw [hsession, state_skip, hrun]
      have hdirectory : now.1.directory = s.directory := by rw [hsession, directory_skip]
      have hseed : now.1.seed = s.seed := by rw [hsession, seed_skip]
      have hz : z.Fair now.1.directory now.1.seed := hdirectory ▸ hseed ▸ hfair z (.inr rfl)
      have htidy : Tidy now.1.directory now.1.seed now.2 f' := hdirectory ▸ hseed ▸ hf'
      obtain ⟨hstays, -⟩ := tidy_generate hnow hz htidy
      rw [after_append, List.length_append, List.length_singleton, skip_add, ← hsession]
      refine ⟨session_generate z.storage now.2 hnow, ?_⟩
      rw [hdirectory, hseed] at hstays
      exact hstays

/-- The first stop keeps what the calls before it have come to, and the later ones find that. -/
theorem after_first_stop {s : Session} {t : FileTree} {f : Folder} (hrun : s.state = .running)
    (htidy : Tidy s.directory s.seed t f) {first : List Call} (hfirst : .stop ∉ first)
    (hfair : ∀ z, .generate z ∈ first → z.Fair s.directory s.seed) (more : List Call) :
    after (first ++ .stop :: more) (s, t) =
      ({ skip first.length s with state := .stopped }, (after first (s, t)).2) := by
  obtain ⟨hsession, -⟩ := along_calls hrun htidy hfirst hfair
  have hbefore : (after first (s, t)).1.state = .running := by rw [hsession, state_skip, hrun]
  rw [after_append, after, List.foldl_cons, call_stop_of_running hbefore, hsession]
  exact after_of_stopped rfl more

/-- The number and the stream of a session that has started, some pages later. -/
theorem skip_of_start {config : SessionConfig} {grammar : Grammar} {t t' : FileTree} {s : Session}
    (h : start config grammar t = (.ok s, t')) (k : Nat) :
    (skip k s).counter = config.startAt - 1 + k ∧
      (skip k s).stream = streamAfter ⟨grammar, config.limits⟩ config.startSymbol
        config.seed.stream (config.startAt - 1 + k) := by
  have hcounter := counter_start h
  have hnumber : (skip k s).counter = config.startAt - 1 + k := by
    rw [counter_skip]
    omega
  exact ⟨hnumber, hnumber ▸ ((onCourse_start h).skip k).stream_eq⟩

/-- Some calls are requests for pages only, or there is a first stop among them. -/
theorem calls_cases (calls : List Call) :
    .stop ∉ calls ∧ calls.takeWhile Call.isGenerate = calls ∨
      ∃ first more, calls = first ++ .stop :: more ∧ .stop ∉ first ∧
        calls.takeWhile Call.isGenerate = first := by
  have hgenerate : ∀ {cs : List Call}, .stop ∉ cs → ∀ c ∈ cs, c.isGenerate = true := by
    intro cs hcs c hc
    cases c with
    | generate z => rfl
    | stop => exact absurd hc hcs
  by_cases hstop : .stop ∈ calls
  · obtain ⟨first, more, rfl, hfirst⟩ := List.eq_append_cons_of_mem hstop
    refine .inr ⟨first, more, rfl, hfirst, ?_⟩
    rw [List.takeWhile_append_of_pos (hgenerate hfirst)]
    exact List.append_nil first
  · exact .inl ⟨hstop, List.takeWhile_eq_self_iff.mpr (hgenerate hstop)⟩

/-- **The life of a session.**  Take a session that has started, any calls to it, and what these
have come to; the writes and removals may have failed in any way.

The number of the session is the one before its start plus the requests for pages before the first
stop, its stream has gone on by the draws of that many pages, and it is never in its initial state.
Without a stop it runs: the next request takes one number and the draws of one page and comes to
that page, in its file, or to an error that it survives; the next stop succeeds.  After a stop every
call is refused with an error that it does not survive, and neither the session nor a file changes
any more. -/
theorem calls_lifecycle {config : SessionConfig} {grammar : Grammar} {t t' : FileTree} {s : Session}
    (h : start config grammar t = (.ok s, t')) (past : List Call)
    (hfair : ∀ z, .generate z ∈ past → z.Fair s.directory s.seed) :
    let now := after past (s, t')
    let number := config.startAt - 1 + (past.takeWhile Call.isGenerate).length
    (now.1.counter = number ∧ now.1.state ≠ .init ∧
      now.1.stream =
        streamAfter ⟨grammar, config.limits⟩ config.startSymbol config.seed.stream number) ∧
    (.stop ∉ past → now.1.state = .running ∧
      (∀ z : Hazard, z.Fair s.directory s.seed →
        let drawn := (Expander.mk grammar config.limits).generate .uniform config.startSymbol
          now.1.stream
        ∃ answer files, call (.generate z) now =
            (answer.map some, { now.1 with counter := number + 1, stream := drawn.2 }, files) ∧
          Delivers (number + 1) drawn.1 files answer) ∧
      call .stop now = (.ok none, { now.1 with state := .stopped }, now.2)) ∧
    (.stop ∈ past → now.1.state = .stopped ∧
      (∀ c, call c now = (.error c.refusal, now) ∧ c.refusal.isRecoverable = false) ∧
      ∀ more, after more now = now) := by
  intro now number
  have hrun := state_start h
  have htidy := tidy_empty s.seed (holds_start h)
  rcases calls_cases past with ⟨hstop, htake⟩ | ⟨first, more, hpast, hfirst, htake⟩
  · obtain ⟨hsession, f, hf⟩ := along_calls hrun htidy hstop hfair
    have hnow : now.1 = skip past.length s := hsession
    have hnumber : number = config.startAt - 1 + past.length := by rw [← htake]
    obtain ⟨hcounter, hstream⟩ := skip_of_start h past.length
    rw [← hnow, ← hnumber] at hcounter hstream
    have hstate : now.1.state = .running := by rw [hnow, state_skip, hrun]
    refine ⟨⟨hcounter, ?_, hstream⟩, fun _ => ⟨hstate, fun z hz => ?_, call_stop_of_running hstate⟩,
      fun hmem => absurd hmem hstop⟩
    · rw [hstate]
      decide
    · have hcourse : OnCourse config.seed grammar config.limits config.startSymbol now.1 :=
        hnow ▸ (onCourse_start h).skip past.length
      have hdirectory : now.1.directory = s.directory := by rw [hnow, directory_skip]
      have hseed : now.1.seed = s.seed := by rw [hnow, seed_skip]
      rw [← hcounter]
      exact call_generate_of_onCourse hcourse hstate (hdirectory ▸ hseed ▸ hz)
        (hdirectory ▸ hseed ▸ hf)
  · have hfair' : ∀ z, .generate z ∈ first → z.Fair s.directory s.seed :=
      fun z hz => hfair z (hpast ▸ List.mem_append_left _ hz)
    have hnow :
        now = ({ skip first.length s with state := .stopped }, (after first (s, t')).2) := by
      show after past (s, t') = _
      rw [hpast]
      exact after_first_stop hrun htidy hfirst hfair' more
    have hnumber : number = config.startAt - 1 + first.length := by rw [← htake]
    obtain ⟨hcounter, hstream⟩ := skip_of_start h first.length
    have hstate : now.1.state = .stopped := by rw [hnow]
    refine ⟨⟨?_, ?_, ?_⟩, fun hstop => absurd (hpast ▸ by simp) hstop,
      fun _ => ⟨hstate, fun c => ⟨call_of_stopped hstate c, ?_⟩, after_of_stopped hstate⟩⟩
    · rw [hnow, hnumber]
      exact hcounter
    · rw [hstate]
      decide
    · rw [hnow, hnumber]
      exact hstream
    · cases c <;> rfl

/-- A request whose write fails halfway, one whose removal fails, and a stop among them. -/
theorem calls_lifecycle_of_four :
    let config : SessionConfig := { seed := ⟨"1", by decide⟩, window := 1 }
    let grammar : Grammar := ⟨[(Page.startSymbol, [.literal "a"])]⟩
    let halfway : Session → Hazard := fun s =>
      ⟨fun t => (FileTree.storage.write t (s.artifactPath 1) "").2, some .notDirectory, id, none⟩
    let stuck : Hazard := ⟨id, none, id, some .isDirectory⟩
    ∃ s t', start config grammar (.ofHere []) = (.ok s, t') ∧
      let now := after [.generate (halfway s), .generate stuck, .stop, .generate stuck] (s, t')
      now.1.counter = 2 ∧ now.1.state = .stopped ∧
        call .stop now = (.error (.illegalTransition .stopped .stopped), now) := by
  intro config grammar halfway stuck
  have hclaim :
      (claimDirectory config.outputRoot (directoryOf config) (.ofHere [])).1 = .ok () := by
    cbv
  have hfit : validate config = .ok ⟨1, by decide⟩ := rfl
  have hstart : ∃ s t', start config grammar (.ofHere []) = (.ok s, t') :=
    start_of_claim hfit hclaim
  obtain ⟨s, t', h⟩ := hstart
  have hkeeps : KeepsPages s.directory s.seed id := fun t f hf => ⟨f, hf, fun _ => rfl⟩
  have hstuck : stuck.Fair s.directory s.seed := ⟨fun t f hf => ⟨f, hf⟩, hkeeps⟩
  have hhalfway : (halfway s).Fair s.directory s.seed := ⟨keepsTidy_write _ _ 1 "", hkeeps⟩
  have hfair : ∀ z, Call.generate z ∈ [.generate (halfway s), .generate stuck, .stop,
      .generate stuck] → z.Fair s.directory s.seed := by
    intro z hz
    simp only [List.mem_cons, List.not_mem_nil, or_false, Call.generate.injEq, reduceCtorEq,
      false_or] at hz
    rcases hz with rfl | rfl | rfl
    · exact hhalfway
    · exact hstuck
    · exact hstuck
  obtain ⟨⟨hcounter, -, -⟩, -, hstopped⟩ := calls_lifecycle h _ hfair
  obtain ⟨hstate, hrefused, -⟩ := hstopped (by simp)
  exact ⟨s, t', h, hcounter, hstate, (hrefused .stop).1⟩

end PageFuzz.Session
