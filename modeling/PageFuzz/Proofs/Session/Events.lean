import Mathlib
import PageFuzz.Session.Basic

/-!
# What stands at a number of a session

A session draws its pages one after another from the random stream of its seed, and nothing that
happens to the files reaches that stream.  So the page of a number is a function of the seed, the
grammar, the limits, the start symbol and that number.

* `expansion`              what the expansion of event `n` comes to, said without a session;
* `OnCourse`               the session is where the pages up to its counter have left the stream;
* `session_events`         events go past pages as `skip` does, whatever the storage answers;
* `onCourse_start`         a session that has started is on course;
* `expansion_eq_of_start`  two sessions agree at every number that both reach.

Each event of a run may meet a storage of its own, so that any pattern of failures is some choice of
storages.
-/

namespace PageFuzz.Session

/-! ## the pages of a seed -/

/-- the random stream after the first `n` pages -/
def streamAfter (e : Expander) (startSymbol : String) (stream : Random.RandomStream) :
    Nat → Random.RandomStream
  | 0 => stream
  | n + 1 => (e.generate .uniform startSymbol (streamAfter e startSymbol stream n)).2

/-- what the expansion of event `n` comes to, where the first event has number one -/
def expansion (seed : Seed) (grammar : Grammar) (limits : Limits) (startSymbol : String)
    (n : Nat) : Except ExpansionError String :=
  let e : Expander := ⟨grammar, limits⟩
  (e.generate .uniform startSymbol (streamAfter e startSymbol seed.stream (n - 1))).1

/-- The stream is where the pages up to the counter have left it. -/
structure OnCourse (seed : Seed) (grammar : Grammar) (limits : Limits) (startSymbol : String)
    (s : Session) : Prop where
  seed_eq : s.seed = seed
  expander_eq : s.expander = ⟨grammar, limits⟩
  startSymbol_eq : s.startSymbol = startSymbol
  stream_eq : s.stream = streamAfter ⟨grammar, limits⟩ startSymbol seed.stream s.counter

namespace OnCourse

variable {seed : Seed} {grammar : Grammar} {limits : Limits} {startSymbol : String} {s : Session}

theorem fst_draw (h : OnCourse seed grammar limits startSymbol s) :
    s.draw.1 = expansion seed grammar limits startSymbol (s.counter + 1) := by
  show (s.expander.generate .uniform s.startSymbol s.stream).1 = _
  rw [h.expander_eq, h.startSymbol_eq, h.stream_eq]
  rfl

theorem snd_draw (h : OnCourse seed grammar limits startSymbol s) :
    OnCourse seed grammar limits startSymbol s.draw.2 where
  seed_eq := h.seed_eq
  expander_eq := h.expander_eq
  startSymbol_eq := h.startSymbol_eq
  stream_eq := by
    show (s.expander.generate .uniform s.startSymbol s.stream).2 = _
    rw [h.expander_eq, h.startSymbol_eq, h.stream_eq]
    rfl

theorem skip (h : OnCourse seed grammar limits startSymbol s) (n : Nat) :
    OnCourse seed grammar limits startSymbol (skip n s) := by
  induction n generalizing s with
  | zero => exact h
  | succ n ih => exact ih h.snd_draw

theorem running (h : OnCourse seed grammar limits startSymbol s) :
    OnCourse seed grammar limits startSymbol { s with state := .running } :=
  ⟨h.seed_eq, h.expander_eq, h.startSymbol_eq, h.stream_eq⟩

end OnCourse

/-! ## what going past pages leaves alone -/

/-- What the derivation of one page leaves alone, going past pages leaves alone. -/
theorem field_skip {α : Type} (field : Session → α) (h : ∀ s, field s.draw.2 = field s) (n : Nat)
    (s : Session) : field (skip n s) = field s := by
  induction n generalizing s with
  | zero => rfl
  | succ n ih => rw [skip, ih, h]

theorem state_skip (n : Nat) (s : Session) : (skip n s).state = s.state :=
  field_skip state (fun _ => rfl) n s

theorem seed_skip (n : Nat) (s : Session) : (skip n s).seed = s.seed :=
  field_skip seed (fun _ => rfl) n s

theorem directory_skip (n : Nat) (s : Session) : (skip n s).directory = s.directory :=
  field_skip directory (fun _ => rfl) n s

theorem retention_skip (n : Nat) (s : Session) : (skip n s).retention = s.retention :=
  field_skip retention (fun _ => rfl) n s

/-! ## the start -/

/-- the directory of a session with some settings -/
def directoryOf (config : SessionConfig) : Path :=
  config.outputRoot.join (.ofString config.seed.text)

/-- All that a successful start has done. -/
theorem start_eq_ok {config : SessionConfig} {grammar : Grammar} {t t' : FileTree} {s : Session}
    (h : start config grammar t = (.ok s, t')) :
    ∃ retention : Retention, retention.window = config.window ∧ 1 ≤ config.startAt ∧
      claimDirectory config.outputRoot (directoryOf config) t = (.ok (), t') ∧
      s = { skip (config.startAt - 1) (prepare config grammar (directoryOf config) retention) with
            state := .running } := by
  rw [start] at h
  cases hv : validate config with
  | error fault =>
    rw [hv] at h
    cases h
  | ok retention =>
    have hwindow : retention.window = config.window ∧ 1 ≤ config.startAt := by
      unfold validate at hv
      split at hv
      · cases hv
      · next hstart =>
        unfold Retention.ofWindow at hv
        split at hv
        · cases hv
          exact ⟨rfl, Nat.one_le_iff_ne_zero.mpr hstart⟩
        · cases hv
    rw [hv] at h
    dsimp only at h
    split at h
    · cases h
    · next t₁ hc =>
      obtain ⟨hs, ht⟩ := Prod.mk.inj h
      refine ⟨retention, hwindow.1, hwindow.2, ht ▸ hc, ?_⟩
      rw [transition, state_skip] at hs
      exact (Except.ok.inj hs).symm

/-- A start succeeds with fit settings and a directory that can be made. -/
theorem start_of_claim {config : SessionConfig} {grammar : Grammar} {t : FileTree}
    {retention : Retention} (hv : validate config = .ok retention)
    (hc : (claimDirectory config.outputRoot (directoryOf config) t).1 = .ok ()) :
    ∃ s t', start config grammar t = (.ok s, t') := by
  rw [start, hv]
  dsimp only
  split
  · next he =>
    rw [directoryOf, he] at hc
    cases hc
  · rw [transition, state_skip]
    exact ⟨_, _, rfl⟩

section
variable {config : SessionConfig} {grammar : Grammar} {t t' : FileTree} {s : Session}

theorem onCourse_start (h : start config grammar t = (.ok s, t')) :
    OnCourse config.seed grammar config.limits config.startSymbol s := by
  obtain ⟨retention, -, -, -, rfl⟩ := start_eq_ok h
  have hprepared : OnCourse config.seed grammar config.limits config.startSymbol
      (prepare config grammar (directoryOf config) retention) := ⟨rfl, rfl, rfl, rfl⟩
  exact (hprepared.skip _).running

theorem counter_start (h : start config grammar t = (.ok s, t')) :
    s.counter + 1 = config.startAt := by
  obtain ⟨retention, -, hstart, -, rfl⟩ := start_eq_ok h
  show (skip (config.startAt - 1) _).counter + 1 = _
  rw [counter_skip]
  show 0 + (config.startAt - 1) + 1 = _
  omega

theorem state_start (h : start config grammar t = (.ok s, t')) : s.state = .running := by
  obtain ⟨retention, -, -, -, rfl⟩ := start_eq_ok h
  rfl

end

/-! ## runs of events -/

section
variable {σ : Type}

/-- the session and the files after so many events, where event `n` meets the storage `stores n` -/
def events (stores : Nat → Storage σ) : Nat → Session → σ → Session × σ
  | 0, s, files => (s, files)
  | k + 1, s, files =>
    let before := events stores k s files
    (before.1.generate (stores (before.1.counter + 1)) before.2).2

/-- what the event after so many events answers -/
def answer (stores : Nat → Storage σ) (k : Nat) (s : Session) (files : σ) :
    Except SessionError Artifact :=
  let before := events stores k s files
  (before.1.generate (stores (before.1.counter + 1)) before.2).1

/-- Events go past pages; what the storages answer makes no difference to the session. -/
theorem session_events (stores : Nat → Storage σ) (k : Nat) {s : Session} (files : σ)
    (h : s.state = .running) : (events stores k s files).1 = skip k s := by
  induction k with
  | zero => rfl
  | succ k ih =>
    have hrunning : (events stores k s files).1.state = .running := by rw [ih, state_skip, h]
    rw [events, session_generate _ _ hrunning, ih, skip_add]
    rfl

theorem counter_events (stores : Nat → Storage σ) (k : Nat) {s : Session} (files : σ)
    (h : s.state = .running) : (events stores k s files).1.counter = s.counter + k := by
  rw [session_events stores k files h, counter_skip]

theorem state_events (stores : Nat → Storage σ) (k : Nat) {s : Session} (files : σ)
    (h : s.state = .running) : (events stores k s files).1.state = .running := by
  rw [session_events stores k files h, state_skip, h]

/-- An answer tells what the expansion came to, unless a file operation has failed. -/
def Tells (n : Nat) (outcome : Except ExpansionError String) : Except SessionError Artifact → Prop
  | .ok page => page.number = n ∧ outcome = .ok page.content
  | .error (.expansion cause) => outcome = .error cause
  | .error (.io _ _) => True
  | .error _ => False

theorem persist_tells (store : Storage σ) (s : Session) (files : σ) (content : String) :
    Tells s.counter (.ok content) (persist store s files content).1 := by
  unfold persist
  dsimp only
  split
  · exact ⟨rfl, rfl⟩
  · trivial

theorem evict_error {store : Storage σ} {s : Session} {files : σ} {e : SessionError}
    (h : (evict store s files).1 = .error e) : ∃ path cause, e = .io path cause := by
  unfold evict at h
  split at h
  · cases h
  · dsimp only at h
    split at h
    · cases h
    · cases h
    · cases h
      exact ⟨_, _, rfl⟩

theorem generate_tells {s : Session} (store : Storage σ) (files : σ) (h : s.state = .running) :
    Tells (s.counter + 1) s.draw.1 (s.generate store files).1 := by
  unfold generate
  rw [if_neg (not_not_intro h)]
  dsimp only
  split
  · next e he =>
    obtain ⟨path, cause, rfl⟩ := evict_error he
    trivial
  · cases hd : s.draw.1 with
    | error cause => rfl
    | ok content => exact persist_tells store s.draw.2 files content

end

/-! ## two sessions -/

/-- **The page of a number depends on the seed, the grammar, the limits, the start symbol and the
number.**  Two sessions may differ in their output roots, windows and first numbers, and their
storages may fail as they like; at a number that both reach their expansions come to the same text
or to the same error, and each answers with that outcome unless one of its file operations fails.
With `b.startAt = 1` this says that a session started later goes on as the one from the start. -/
theorem expansion_eq_of_start {σ τ : Type} {a b : SessionConfig} {grammar : Grammar}
    {ta ta' tb tb' : FileTree} {sa sb : Session} (hseed : a.seed = b.seed)
    (hlimits : a.limits = b.limits) (hsymbol : a.startSymbol = b.startSymbol)
    (ha : start a grammar ta = (.ok sa, ta')) (hb : start b grammar tb = (.ok sb, tb'))
    (storesA : Nat → Storage σ) (filesA : σ) (storesB : Nat → Storage τ) (filesB : τ) (i j n : Nat)
    (hi : n = a.startAt + i) (hj : n = b.startAt + j) :
    let x := (events storesA i sa filesA).1
    let y := (events storesB j sb filesB).1
    x.counter + 1 = n ∧ y.counter + 1 = n ∧ x.draw.1 = y.draw.1 ∧
      x.draw.1 = expansion a.seed grammar a.limits a.startSymbol n ∧
      Tells n x.draw.1 (answer storesA i sa filesA) ∧
      Tells n y.draw.1 (answer storesB j sb filesB) := by
  intro x y
  have hxn : x.counter + 1 = n := by
    have := counter_start ha
    rw [counter_events storesA i filesA (state_start ha)]
    omega
  have hyn : y.counter + 1 = n := by
    have := counter_start hb
    rw [counter_events storesB j filesB (state_start hb)]
    omega
  have hx : OnCourse a.seed grammar a.limits a.startSymbol x := by
    rw [show x = skip i sa from session_events storesA i filesA (state_start ha)]
    exact (onCourse_start ha).skip i
  have hy : OnCourse b.seed grammar b.limits b.startSymbol y := by
    rw [show y = skip j sb from session_events storesB j filesB (state_start hb)]
    exact (onCourse_start hb).skip j
  have hdx : x.draw.1 = expansion a.seed grammar a.limits a.startSymbol n := hxn ▸ hx.fst_draw
  have hdy : y.draw.1 = expansion b.seed grammar b.limits b.startSymbol n := hyn ▸ hy.fst_draw
  refine ⟨hxn, hyn, ?_, hdx, ?_, ?_⟩
  · rw [hdx, hdy, hseed, hlimits, hsymbol]
  · have htells : Tells (x.counter + 1) x.draw.1 (answer storesA i sa filesA) :=
      generate_tells _ _ (state_events storesA i filesA (state_start ha))
    rwa [hxn] at htells
  · have htells : Tells (y.counter + 1) y.draw.1 (answer storesB j sb filesB) :=
      generate_tells _ _ (state_events storesB j filesB (state_start hb))
    rwa [hyn] at htells

/-- The second event of a session that cannot write and the first of one that starts at two. -/
theorem expansion_eq_at_two :
    let seed : Seed := ⟨"1", by decide⟩
    let a : SessionConfig := { seed }
    let b : SessionConfig := { outputRoot := .ofString "out", seed, window := 1, startAt := 2 }
    let grammar : Grammar := ⟨[(Page.startSymbol, [.literal "a", .sequence [.terminal "b"]])]⟩
    let broken : Storage Unit := ⟨fun f _ _ => (.error .notFound, f), fun f _ => (.ok (), f)⟩
    let sound : Storage Unit := ⟨fun f _ _ => (.ok (), f), fun f _ => (.ok (), f)⟩
    ∃ sa sb ta tb, start a grammar (.ofHere []) = (.ok sa, ta) ∧
      start b grammar (.ofHere []) = (.ok sb, tb) ∧
      (events (fun _ => broken) 1 sa ()).1.draw.1 = (events (fun _ => sound) 0 sb ()).1.draw.1 := by
  intro seed a b grammar broken sound
  have hclaimA : (claimDirectory a.outputRoot (directoryOf a) (.ofHere [])).1 = .ok () := by cbv
  have hclaimB : (claimDirectory b.outputRoot (directoryOf b) (.ofHere [])).1 = .ok () := by cbv
  have hfitA : validate a = .ok ⟨20, by decide⟩ := rfl
  have hfitB : validate b = .ok ⟨1, by decide⟩ := rfl
  have hstartA : ∃ s t', start a grammar (.ofHere []) = (.ok s, t') :=
    start_of_claim hfitA hclaimA
  have hstartB : ∃ s t', start b grammar (.ofHere []) = (.ok s, t') :=
    start_of_claim hfitB hclaimB
  obtain ⟨sa, ta, ha⟩ := hstartA
  obtain ⟨sb, tb, hb⟩ := hstartB
  have hseed : a.seed = b.seed := rfl
  have hlimits : a.limits = b.limits := rfl
  have hsymbol : a.startSymbol = b.startSymbol := rfl
  have h := expansion_eq_of_start hseed hlimits hsymbol ha hb (fun _ => broken) ()
    (fun _ => sound) () 1 0 2 rfl rfl
  exact ⟨sa, sb, ta, tb, ha, hb, h.2.2.1⟩

end PageFuzz.Session
