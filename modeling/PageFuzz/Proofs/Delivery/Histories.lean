import Mathlib
import PageFuzz.Delivery.Server
import PageFuzz.Proofs.Replay.Progress
import PageFuzz.Proofs.Session.Events

/-!
# Histories of requests

A server answers one request after another.  Its machine, a session or a replay, takes a step for
each `GET` of the root and for nothing else; so a history of requests, whoever sends them, comes to
the calls that its `GET`s of the root stand for, and each of these is answered with what its call
came to.

* `Arrival`, `serveAll`     the requests of any number of clients, in the order of their arrival;
* `callAll`                 a machine on its own, called so many times;
* `Serves`                  a server that steps its machine for an event and for nothing else;
* `serveAll_eq`             its histories come to calls of the machine;
* `Told`                    the answers of a history, request by request;
* `serveAll_refines`        the servers of a session and of a replay.
-/

namespace PageFuzz.Delivery

/-! ## histories -/

/-- a request, who sends it, and what its event meets if it asks for one -/
structure Arrival (ι ε : Type) where
  client : ι
  request : Request
  meets : ε

section
variable {ι ε σ ρ : Type}

def Arrival.asksEvent (a : Arrival ι ε) : Bool := route a.request == .event

/-- Answer requests in the order in which they arrive. -/
def serveAll (serve : ε → Request → σ → Response × σ) :
    List (Arrival ι ε) → σ → List (Arrival ι ε × Response) × σ
  | [], s => ([], s)
  | a :: history, s =>
    let first := serve a.meets a.request s
    let rest := serveAll serve history first.2
    ((a, first.1) :: rest.1, rest.2)

/-- Call a machine again and again. -/
def callAll (call : ε → σ → ρ × σ) : List ε → σ → List ρ × σ
  | [], s => ([], s)
  | e :: es, s =>
    let first := call e s
    let rest := callAll call es first.2
    (first.1 :: rest.1, rest.2)

/-- what the events of a history meet, one for each `GET` of the root -/
def events (history : List (Arrival ι ε)) : List ε :=
  (history.filter Arrival.asksEvent).map (·.meets)

theorem events_cons_of_event {a : Arrival ι ε} (history : List (Arrival ι ε))
    (h : route a.request = .event) : events (a :: history) = a.meets :: events history := by
  have ha : a.asksEvent = true := by simpa [Arrival.asksEvent] using h
  rw [events, List.filter_cons_of_pos ha]
  rfl

theorem events_cons_of_ne {a : Arrival ι ε} (history : List (Arrival ι ε))
    (h : route a.request ≠ .event) : events (a :: history) = events history := by
  have ha : ¬ a.asksEvent = true := by simpa [Arrival.asksEvent] using h
  rw [events, List.filter_cons_of_neg ha]
  rfl

/-! ## calls -/

theorem callAll_append (call : ε → σ → ρ × σ) (es more : List ε) (s : σ) :
    callAll call (es ++ more) s =
      ((callAll call es s).1 ++ (callAll call more (callAll call es s).2).1,
        (callAll call more (callAll call es s).2).2) := by
  induction es generalizing s with
  | nil => rfl
  | cons e es ih =>
    rw [List.cons_append, callAll, ih]
    rfl

theorem callAll_concat (call : ε → σ → ρ × σ) (es : List ε) (e : ε) (s : σ) :
    callAll call (es ++ [e]) s =
      ((callAll call es s).1 ++ [(call e (callAll call es s).2).1],
        (call e (callAll call es s).2).2) := callAll_append call es [e] s

/-- A call is made on what the calls before it have left. -/
theorem getElem?_callAll (call : ε → σ → ρ × σ) (es : List ε) (s : σ) (i : Nat) :
    (callAll call es s).1[i]? =
      es[i]?.map fun e => (call e (callAll call (es.take i) s).2).1 := by
  induction es generalizing s i with
  | nil => rfl
  | cons e es ih =>
    cases i with
    | zero => rfl
    | succ i => exact ih _ i

theorem take_callAll (call : ε → σ → ρ × σ) (es : List ε) (s : σ) (i : Nat) :
    (callAll call es s).1.take i = (callAll call (es.take i) s).1 := by
  induction es generalizing s i with
  | nil => simp [callAll]
  | cons e es ih =>
    cases i with
    | zero => rfl
    | succ i => exact congrArg (_ :: ·) (ih _ i)

/-! ## servers -/

/-- A request that asks for an event is answered with what one call of the machine comes to; any
other leaves the machine alone. -/
structure Serves (label : String) (serve : ε → Request → σ → Response × σ)
    (call : ε → σ → ρ × σ) (render : ρ → Except String ByteArray) : Prop where
  event : ∀ e r s, route r = .event →
    serve e r s = (answer label (render (call e s).1), (call e s).2)
  nothing : ∀ e r s, route r = .nothing → serve e r s = (emptyPage, s)
  refused : ∀ e r s, route r = .refused → serve e r s = (notAllowed, s)

theorem serves_respond {label : String} {event : ε → σ → Except String ByteArray × σ}
    {call : ε → σ → ρ × σ} {render : ρ → Except String ByteArray}
    (hevent : ∀ e s, event e s = (render (call e s).1, (call e s).2)) :
    Serves label (fun e => respond label (event e)) call render where
  event e r s h := by simp only [respond, h, hevent]
  nothing e r s h := by simp only [respond, h]
  refused e r s h := by simp only [respond, h]

/-- The body and the status of an answer tell what the call came to. -/
def Answers (label : String) : Except String ByteArray → Response → Prop
  | .ok body, r => r.status = 200 ∧ r.body = body
  | .error message, r => r.status = 500 ∧ r.body = (label ++ " failed: " ++ message).toByteArray

theorem answers_answer (label : String) (result : Except String ByteArray) :
    Answers label result (answer label result) := by
  cases result <;> exact ⟨rfl, rfl⟩

/-- All that the clients are told: the requests for events what these came to, one after another,
and any other request nothing, or that its method is not allowed. -/
structure Told (label : String) (history : List (Arrival ι ε))
    (results : List (Except String ByteArray)) (told : List (Arrival ι ε × Response)) : Prop where
  arrivals_eq : told.map Prod.fst = history
  events : List.Forall₂ (Answers label) results
    ((told.filter fun x => x.1.asksEvent).map Prod.snd)
  nothing : ∀ x ∈ told, x.1.request.method = "GET" →
    isRoot (pathOf x.1.request.target) = false → x.2.status = 200 ∧ x.2.body = .empty
  refused : ∀ x ∈ told, x.1.request.method ≠ "GET" → x.2.status = 405

theorem told_nil (label : String) : Told label ([] : List (Arrival ι ε)) [] [] where
  arrivals_eq := rfl
  events := .nil
  nothing := nofun
  refused := nofun

theorem Told.cons_event {label : String} {history : List (Arrival ι ε)}
    {results : List (Except String ByteArray)} {told : List (Arrival ι ε × Response)}
    (h : Told label history results told) {a : Arrival ι ε} (ha : route a.request = .event)
    (result : Except String ByteArray) :
    Told label (a :: history) (result :: results) ((a, answer label result) :: told) := by
  obtain ⟨hmethod, hroot⟩ := route_eq_event.mp ha
  have hasks : a.asksEvent = true := by simpa [Arrival.asksEvent] using ha
  refine ⟨congrArg (a :: ·) h.arrivals_eq, ?_, ?_, ?_⟩
  · rw [List.filter_cons_of_pos (by exact hasks)]
    exact .cons (answers_answer label result) h.events
  · intro x hx hget hother
    rcases List.mem_cons.mp hx with rfl | hx
    · rw [hroot] at hother
      cases hother
    · exact h.nothing x hx hget hother
  · intro x hx hne
    rcases List.mem_cons.mp hx with rfl | hx
    · exact absurd hmethod hne
    · exact h.refused x hx hne

theorem Told.cons_other {label : String} {history : List (Arrival ι ε)}
    {results : List (Except String ByteArray)} {told : List (Arrival ι ε × Response)}
    (h : Told label history results told) {a : Arrival ι ε} (ha : route a.request ≠ .event)
    {r : Response} (hnothing : route a.request = .nothing → r = emptyPage)
    (hrefused : route a.request = .refused → r = notAllowed) :
    Told label (a :: history) results ((a, r) :: told) := by
  have hasks : ¬ a.asksEvent = true := by simpa [Arrival.asksEvent] using ha
  refine ⟨congrArg (a :: ·) h.arrivals_eq, ?_, ?_, ?_⟩
  · rw [List.filter_cons_of_neg (by exact hasks)]
    exact h.events
  · intro x hx hget hother
    rcases List.mem_cons.mp hx with rfl | hx
    · dsimp only at hget hother ⊢
      have hroute : route a.request = .nothing := by simp [route, hget, hother]
      rw [hnothing hroute]
      exact ⟨rfl, rfl⟩
    · exact h.nothing x hx hget hother
  · intro x hx hne
    rcases List.mem_cons.mp hx with rfl | hx
    · dsimp only at hne ⊢
      have hroute : route a.request = .refused := by simp [route, hne]
      rw [hrefused hroute]
      rfl
    · exact h.refused x hx hne

/-- A history leaves the machine as its calls do, and tells what these came to. -/
theorem serveAll_eq {label : String} {serve : ε → Request → σ → Response × σ}
    {call : ε → σ → ρ × σ} {render : ρ → Except String ByteArray}
    (h : Serves label serve call render) (history : List (Arrival ι ε)) (s : σ) :
    (serveAll serve history s).2 = (callAll call (events history) s).2 ∧
      Told label history ((callAll call (events history) s).1.map render)
        (serveAll serve history s).1 := by
  induction history generalizing s with
  | nil => exact ⟨rfl, told_nil label⟩
  | cons a history ih =>
    rw [serveAll]
    cases hroute : route a.request with
    | event =>
      rw [events_cons_of_event history hroute, h.event a.meets a.request s hroute]
      obtain ⟨hstate, htold⟩ := ih (call a.meets s).2
      exact ⟨hstate, htold.cons_event hroute _⟩
    | nothing =>
      have hne : route a.request ≠ .event := by rw [hroute]; decide
      rw [events_cons_of_ne history hne, h.nothing a.meets a.request s hroute]
      obtain ⟨hstate, htold⟩ := ih s
      refine ⟨hstate, htold.cons_other hne (fun _ => rfl) fun hrefused => ?_⟩
      rw [hroute] at hrefused
      cases hrefused
    | refused =>
      have hne : route a.request ≠ .event := by rw [hroute]; decide
      rw [events_cons_of_ne history hne, h.refused a.meets a.request s hroute]
      obtain ⟨hstate, htold⟩ := ih s
      refine ⟨hstate, htold.cons_other hne (fun hnothing => ?_) fun _ => rfl⟩
      rw [hroute] at hnothing
      cases hnothing

end

/-! ## the server of a session -/

section
variable {σ : Type}

/-- one call of a session, on a storage -/
def sessionCall (store : Storage σ) (now : Session × σ) :
    Except SessionError Artifact × Session × σ := now.1.generate store now.2

def sessionResult (page : Except SessionError Artifact) : Except String ByteArray :=
  (page.map (·.content.toByteArray)).mapError SessionError.message

theorem generationEvent_eq (store : Storage σ) (now : Session × σ) :
    generationEvent store now =
      (sessionResult (sessionCall store now).1, (sessionCall store now).2) := by
  rw [generationEvent, sessionCall]
  cases (now.1.generate store now.2).1 <;> rfl

theorem serves_session :
    Serves generationLabel (serveSession (σ := σ)) sessionCall sessionResult :=
  serves_respond generationEvent_eq

/-- Calls of a session that runs go past pages, one for each, and a page has the number of its
call. -/
theorem callAll_session (stores : List (Storage σ)) {s : Session} (files : σ)
    (hrun : s.state = .running) :
    (callAll sessionCall stores (s, files)).2.1 = Session.skip stores.length s ∧
      ∀ i page, (callAll sessionCall stores (s, files)).1[i]? = some (.ok page) →
        page.number = s.counter + i + 1 := by
  induction stores generalizing s files with
  | nil => exact ⟨rfl, nofun⟩
  | cons store stores ih =>
    have hnext : (s.generate store files).2.1 = s.draw.2 :=
      Session.session_generate store files hrun
    have hstate : (s.generate store files).2.1.state = .running := by
      rw [hnext]
      exact hrun
    obtain ⟨hsession, hnumbers⟩ := ih (s.generate store files).2.2 hstate
    refine ⟨?_, fun i page hpage => ?_⟩
    · exact hsession.trans (congrArg (Session.skip stores.length) hnext)
    · cases i with
      | zero =>
        have htells := Session.generate_tells store files hrun
        have hanswer : (s.generate store files).1 = .ok page := Option.some.inj hpage
        rw [hanswer] at htells
        exact htells.1
      | succ i =>
        have hcounter : (s.generate store files).2.1.counter = s.counter + 1 := by
          rw [hnext]
          rfl
        rw [hnumbers i page hpage, hcounter]
        omega

end

/-! ## the server of a replay -/

open Replay

/-- one call of a replay, after what others have done to the files -/
def replayCall (change : FileTree → FileTree) (now : Harness × FileTree) :
    Except ReplayError Page × Harness × FileTree := now.1.next (change now.2)

def replayResult (page : Except ReplayError Page) : Except String ByteArray :=
  (page.map Page.body).mapError ReplayError.message

/-- A request to the server of a replay, and what others have done to the files before its event.
What they do before any other request counts to the next event: such a request looks at no file. -/
def serveReplayAmid (change : FileTree → FileTree) (r : Request) (now : Harness × FileTree) :
    Response × Harness × FileTree :=
  if route r = .event then serveReplay r (now.1, change now.2) else serveReplay r now

theorem replayEvent_eq (now : Harness × FileTree) :
    replayEvent now = (replayResult (now.1.next now.2).1, (now.1.next now.2).2) := by
  rw [replayEvent]
  cases (now.1.next now.2).1 <;> rfl

theorem serves_replay : Serves replayLabel serveReplayAmid replayCall replayResult where
  event change r now h := by
    simp only [serveReplayAmid, serveReplay, respond, h, if_true, replayEvent_eq, replayCall]
  nothing change r now h := by
    simp [serveReplayAmid, serveReplay, respond, h]
  refused change r now h := by
    simp [serveReplayAmid, serveReplay, respond, h]

/-- The files that a harness has served since it was `h₀`: those of its list between the two
positions. -/
structure Stretch (h₀ h : Harness) (pages : List (Except ReplayError Page)) : Prop where
  files_eq : h.files = h₀.files
  position_ge : h₀.position ≤ h.position
  served_eq : servedPaths pages = (h₀.files.take h.position).drop h₀.position

theorem stretch_start (h₀ : Harness) : Stretch h₀ h₀ [] where
  files_eq := rfl
  position_ge := Nat.le_refl _
  served_eq := (List.drop_eq_nil_of_le (List.length_take_le _ _)).symm

theorem Stretch.next {h₀ h : Harness} {pages : List (Except ReplayError Page)}
    (hs : Stretch h₀ h pages) (t : FileTree) :
    Stretch h₀ (h.next t).2.1 (pages ++ [(h.next t).1]) := by
  have hserved := servedPaths_concat pages (h.next t).1
  rcases next_cases h t with ⟨hsame, hnone⟩ | ⟨hlt, hnext, hone⟩
  · rw [hnone, List.append_nil] at hserved
    rw [hsame]
    exact ⟨hs.files_eq, hs.position_ge, hserved.trans hs.served_eq⟩
  · rw [hone, hs.served_eq] at hserved
    rw [hnext]
    refine ⟨hs.files_eq, Nat.le_succ_of_le hs.position_ge, hserved.trans ?_⟩
    have hprior : h₀.position ≤ (h₀.files.take h.position).length := by
      rw [List.length_take, ← hs.files_eq, Nat.min_eq_left h.position_le]
      exact hs.position_ge
    have hlt₀ : h.position < h₀.files.length := hs.files_eq ▸ hlt
    have hfile : h.files[h.position] = h₀.files[h.position] := by simp only [hs.files_eq]
    show _ = (h₀.files.take (h.position + 1)).drop h₀.position
    rw [hfile, ← List.take_append_getElem hlt₀, List.drop_append_of_le_length hprior]

theorem stretch_calls (changes : List (FileTree → FileTree)) (h : Harness) (t : FileTree) :
    Stretch h (callAll replayCall changes (h, t)).2.1 (callAll replayCall changes (h, t)).1 := by
  induction changes using List.reverseRecOn with
  | nil => exact stretch_start h
  | append_singleton changes change ih =>
    rw [callAll_concat]
    exact ih.next _

/-- The end is reached when all the files from the first position on have been served. -/
theorem Stretch.served_eq_iff {h₀ h : Harness} {pages : List (Except ReplayError Page)}
    (hs : Stretch h₀ h pages) :
    servedPaths pages = h₀.files.drop h₀.position ↔ h.position = h.files.length := by
  have hle := h.position_le
  have hfiles := congrArg List.length hs.files_eq
  constructor
  · intro hall
    have hlength := congrArg List.length (hs.served_eq.symm.trans hall)
    rw [List.length_drop, List.length_take, List.length_drop] at hlength
    have := hs.position_ge
    omega
  · intro hend
    rw [hs.served_eq, hend, hs.files_eq, List.take_length]

/-! ## both servers -/

/-- **The servers step their machines for the `GET`s of the root and for nothing else.**  Any number
of clients send requests with any methods and targets, in any order, and each event meets a storage
that fails as it likes, or files that others have changed as they like.

The session that is served is afterwards the one that was asked for a page once for each `GET` of
the root, and the clients are told what these calls have come to, one after another; so the numbers
of the pages are those after the counter of the session, each for one event.

The same holds of the replay.  The files that were served are those of its list from where it was
to where it is, each once, and the clients are told the end when all of them have been served. -/
theorem serveAll_refines {ι σ : Type} :
    (∀ (s : Session) (files : σ) (history : List (Arrival ι (Storage σ))), s.state = .running →
      let served := serveAll serveSession history (s, files)
      let called := callAll sessionCall (events history) (s, files)
      served.2 = called.2 ∧
        Told "generation" history (called.1.map sessionResult) served.1 ∧
        called.2.1 = Session.skip (events history).length s ∧
        called.2.1.counter = s.counter + (events history).length ∧
        ∀ i page, called.1[i]? = some (.ok page) → page.number = s.counter + i + 1) ∧
    ∀ (h : Harness) (t : FileTree) (history : List (Arrival ι (FileTree → FileTree))),
      let served := serveAll serveReplayAmid history (h, t)
      let called := callAll replayCall (events history) (h, t)
      served.2 = called.2 ∧
        Told "replay" history (called.1.map replayResult) served.1 ∧
        called.2.1.files = h.files ∧
        servedPaths called.1 = (h.files.take called.2.1.position).drop h.position ∧
        (h.files.Nodup → (servedPaths called.1).Nodup) ∧
        ∀ i < (events history).length, called.1[i]? = some (.ok .completed) ↔
          servedPaths (called.1.take i) = h.files.drop h.position := by
  refine ⟨fun s files history hrun => ?_, fun h t history => ?_⟩
  · obtain ⟨hstate, htold⟩ := serveAll_eq serves_session history (s, files)
    obtain ⟨hsession, hnumbers⟩ := callAll_session (events history) files hrun
    refine ⟨hstate, htold, hsession, ?_, hnumbers⟩
    rw [hsession, Session.counter_skip]
  · obtain ⟨hstate, htold⟩ := serveAll_eq serves_replay history (h, t)
    have hstretch := stretch_calls (events history) h t
    refine ⟨hstate, htold, hstretch.files_eq, hstretch.served_eq, fun hnodup => ?_, fun i hi => ?_⟩
    · rw [hstretch.served_eq]
      exact hnodup.sublist ((List.drop_sublist _ _).trans (List.take_sublist _ _))
    · -- what the call finds is the harness that the calls before it have left
      have hbefore := stretch_calls ((events history).take i) h t
      rw [getElem?_callAll, take_callAll, hbefore.served_eq_iff,
        List.getElem?_eq_getElem hi, Option.map_some, Option.some.injEq]
      exact next_eq_completed_iff

/-- Two clients of a session that cannot write its first page, where one looks for an icon and one
posts; and a replay of two files of which neither is there. -/
theorem serveAll_refines_of_two :
    let grammar : Grammar := ⟨[("s", [.literal "a"])]⟩
    let s : Session := ⟨⟨"1", by decide⟩, Seed.stream ⟨"1", by decide⟩, ⟨grammar, {}⟩, "s",
      .ofString "1", .standard, 0, .running⟩
    let broken : Storage Unit := ⟨fun f _ _ => (.error .notFound, f), fun f _ => (.ok (), f)⟩
    let sound : Storage Unit := ⟨fun f _ _ => (.ok (), f), fun f _ => (.ok (), f)⟩
    let history : List (Arrival Bool (Storage Unit)) := [
      ⟨true, ⟨"GET", "/"⟩, broken⟩, ⟨false, ⟨"GET", "/favicon.ico"⟩, broken⟩,
      ⟨true, ⟨"POST", "/"⟩, sound⟩, ⟨false, ⟨"GET", "/"⟩, sound⟩]
    let h : Harness := ⟨[⟨[97]⟩, ⟨[98]⟩], 0, ⟨[108]⟩, 0, Nat.zero_le _⟩
    let visits : List (Arrival Bool (FileTree → FileTree)) := [⟨true, ⟨"GET", "/"⟩, id⟩]
    s.state = .running ∧ events history = [broken, sound] ∧
      (serveAll serveSession history (s, ())).2.1.counter = 2 ∧ h.files.Nodup ∧
      (servedPaths (callAll replayCall (events visits) (h, .ofHere [])).1).Nodup := by
  intro grammar s broken sound history h visits
  have hrun : s.state = .running := rfl
  have hroot : route ⟨"GET", "/"⟩ = .event := by decide
  have hicon : route ⟨"GET", "/favicon.ico"⟩ ≠ .event := by decide
  have hpost : route ⟨"POST", "/"⟩ ≠ .event := by decide
  have hevents : events history = [broken, sound] := by
    rw [events_cons_of_event _ hroot, events_cons_of_ne _ hicon, events_cons_of_ne _ hpost,
      events_cons_of_event _ hroot]
    rfl
  obtain ⟨hsession, hreplay⟩ := @serveAll_refines Bool Unit
  obtain ⟨hstate, -, -, hcounter, -⟩ := hsession s () history hrun
  have htwo : s.counter + (events history).length = 2 := by
    rw [hevents]
    rfl
  have hfiles : h.files.Nodup := by decide
  obtain ⟨-, -, -, -, hnodup, -⟩ := hreplay h (.ofHere []) visits
  exact ⟨hrun, hevents, (congrArg (fun now => now.1.counter) hstate).trans (hcounter.trans htwo),
    hfiles, hnodup hfiles⟩

end PageFuzz.Delivery
