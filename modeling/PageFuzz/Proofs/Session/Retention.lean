import PageFuzz.Proofs.Session.Artifacts
import PageFuzz.Proofs.Session.Events

/-!
# What a session keeps

After any number of events the directory of a session holds the pages that were derived and
written and that are either still in the window or could not be removed when they left it.  An
event that fails leaves a gap at its number, which no later event fills.

* `Event`, `history`       what the events of a run have done to the files;
* `kept`                   the pages that are there after them;
* `kept_append`            one more event adds its page and drops the one that leaves the window;
* `shelved_generate`       so does one event to the directory;
* `shelved_events`         hence the directory holds the kept pages after every run;
* `folder?_events`         the same from the start on, among files that others change.
-/

namespace PageFuzz.Session

/-! ## events and what they have done -/

/-- what an event has done to the files -/
structure Event where
  number : Nat
  /-- the text of its page, if that was derived and written -/
  stored : Option String
  /-- how the removal of the page that left the window went, if a page did -/
  removal : Option (Except IoCause Unit)

def Event.removalFailed (e : Event) : Bool :=
  match e.removal with
  | some (.error _) => true
  | _ => false

/-- the pages that some events have written, by number -/
def stored (past : List Event) : List (Nat × String) :=
  past.filterMap fun e => e.stored.map fun text => (e.number, text)

/-- whether an event of that number could not remove its page -/
def removalFailed (past : List Event) (n : Nat) : Bool :=
  past.any fun e => e.number == n && e.removalFailed

/-- The pages that are there after the event `last`: those written that are in the window, and
those that the event at which they left it has failed to remove. -/
def kept (window last : Nat) (past : List Event) : List (Nat × String) :=
  (stored past).filter fun page =>
    last < page.1 + window || removalFailed past (page.1 + window)

theorem stored_append (past more : List Event) :
    stored (past ++ more) = stored past ++ stored more := List.filterMap_append

theorem removalFailed_append (past : List Event) (e : Event) (n : Nat) :
    removalFailed (past ++ [e]) n = (removalFailed past n || (e.number == n && e.removalFailed)) := by
  unfold removalFailed
  rw [List.any_append, List.any_cons, List.any_nil, Bool.or_false]

theorem mem_stored {past : List Event} {page : Nat × String} :
    page ∈ stored past ↔ ∃ e ∈ past, e.number = page.1 ∧ e.stored = some page.2 := by
  unfold stored
  rw [List.mem_filterMap]
  constructor
  · rintro ⟨e, he, hpage⟩
    obtain ⟨text, htext, rfl⟩ := Option.map_eq_some_iff.mp hpage
    exact ⟨e, he, rfl, htext⟩
  · rintro ⟨e, he, hnumber, htext⟩
    refine ⟨e, he, ?_⟩
    rw [htext, hnumber]
    rfl

/-- One more event adds its page and drops the page that leaves the window, if it can. -/
theorem kept_append {window last : Nat} {past : List Event} {e : Event} (hwindow : 0 < window)
    (hpast : ∀ x ∈ past, x.number ≤ last) (he : e.number = last + 1) :
    kept window (last + 1) (past ++ [e]) =
      (kept window last past ++ stored [e]).filter fun page =>
        page.1 + window ≠ last + 1 || e.removalFailed := by
  unfold kept
  rw [stored_append, List.filter_append, List.filter_append, List.filter_filter]
  congr 1
  · refine List.filter_congr fun page _ => ?_
    rw [removalFailed_append, he]
    by_cases hleaves : page.1 + window = last + 1
    · -- no event before `e` had the number at which this page leaves
      have hnone : removalFailed past (last + 1) = false := by
        unfold removalFailed
        rw [List.any_eq_false]
        intro x hx
        have hle := hpast x hx
        have hne : x.number ≠ last + 1 := by omega
        simp [hne]
      rw [hleaves, hnone]
      simp
    · have hother : (last + 1 == page.1 + window) = false := by simpa using Ne.symm hleaves
      have hiff : last + 1 < page.1 + window ↔ last < page.1 + window := by omega
      simp [hleaves, hother, hiff]
  · refine List.filter_congr fun page hpage => ?_
    obtain ⟨x, hx, hnumber, -⟩ := mem_stored.mp hpage
    rw [List.mem_singleton.mp hx, he] at hnumber
    have hin : last + 1 < page.1 + window := by omega
    have hstays : page.1 + window ≠ last + 1 := by omega
    simp [hin, hstays]

section
variable {σ : Type}

/-- the first half of an event: its page is derived and written -/
def written (store : Storage σ) (s : Session) (files : σ) : Except SessionError Artifact × σ :=
  match s.draw.1 with
  | .error cause => (.error (.expansion cause), files)
  | .ok content => persist store s.draw.2 files content

/-- what the next event does to the files -/
def record (store : Storage σ) (s : Session) (files : σ) : Event where
  number := s.counter + 1
  stored := (written store s files).1.toOption.map Artifact.content
  removal := (s.retention.evictee (s.counter + 1)).map fun n =>
    (store.remove (written store s files).2 (s.artifactPath n)).1

theorem files_evict (store : Storage σ) (s : Session) (files : σ) :
    (evict store s files).2 =
      match s.retention.evictee s.counter with
      | none => files
      | some n => (store.remove files (s.artifactPath n)).2 := by
  unfold evict
  cases s.retention.evictee s.counter with
  | none => rfl
  | some n =>
    dsimp only
    split <;> next hr => rw [hr]

/-- The files after an event: the page is written, and then the page that left is removed. -/
theorem files_generate {s : Session} (store : Storage σ) (files : σ) (h : s.state = .running) :
    (s.generate store files).2.2 =
      match s.retention.evictee (s.counter + 1) with
      | none => (written store s files).2
      | some n => (store.remove (written store s files).2 (s.artifactPath n)).2 := by
  have hevict : (s.generate store files).2.2 =
      (evict store s.draw.2 (written store s files).2).2 := by
    unfold generate
    rw [if_neg (not_not_intro h)]
    dsimp only
    split <;> rfl
  rw [hevict, files_evict]
  rfl

/-- what the first events have done, where event `n` meets the storage `stores n` -/
def history (stores : Nat → Storage σ) (k : Nat) (s : Session) (files : σ) : List Event :=
  (List.range k).map fun i =>
    let before := events stores i s files
    record (stores (before.1.counter + 1)) before.1 before.2

theorem history_succ (stores : Nat → Storage σ) (k : Nat) (s : Session) (files : σ) :
    history stores (k + 1) s files = history stores k s files ++
      [record (stores ((events stores k s files).1.counter + 1)) (events stores k s files).1
        (events stores k s files).2] := by
  unfold history
  rw [List.range_succ, List.map_append, List.map_singleton]

/-- Every event has a number of its own, one after another. -/
theorem numbers_history (stores : Nat → Storage σ) (k : Nat) {s : Session} (files : σ)
    (h : s.state = .running) :
    (history stores k s files).map Event.number = List.range' (s.counter + 1) k := by
  induction k with
  | zero => rfl
  | succ k ih =>
    rw [history_succ, List.map_append, ih, List.range'_1_concat, List.map_singleton]
    show _ ++ [(events stores k s files).1.counter + 1] = _
    rw [counter_events stores k files h, Nat.add_right_comm]

/-- A page that was written is what was drawn at its number. -/
theorem draw_of_stored {store : Storage σ} {s : Session} {files : σ} {text : String}
    (h : (record store s files).stored = some text) : s.draw.1 = .ok text := by
  obtain ⟨page, hpage, rfl⟩ := Option.map_eq_some_iff.mp h
  unfold written at hpage
  cases hd : s.draw.1 with
  | error cause =>
    rw [hd] at hpage
    cases hpage
  | ok content =>
    rw [hd] at hpage
    dsimp only at hpage
    unfold persist at hpage
    dsimp only at hpage
    split at hpage
    · cases hpage
      rfl
    · cases hpage

/-- The pages written in a run have the numbers of their events and the texts drawn there. -/
theorem mem_stored_history {stores : Nat → Storage σ} {k : Nat} {s : Session} {files : σ}
    (h : s.state = .running) {page : Nat × String}
    (hpage : page ∈ stored (history stores k s files)) :
    ∃ i < k, page.1 = s.counter + i + 1 ∧ (skip i s).draw.1 = .ok page.2 := by
  obtain ⟨e, he, hnumber, htext⟩ := mem_stored.mp hpage
  obtain ⟨i, hi, rfl⟩ := List.mem_map.mp he
  refine ⟨i, List.mem_range.mp hi, ?_, ?_⟩
  · rw [← hnumber, ← counter_events stores i files h]
    rfl
  · rw [← session_events stores i files h]
    exact draw_of_stored htext

end

/-! ## the directory -/

section
variable {store : Storage FileTree} {s : Session} {t : FileTree} {pages : List (Nat × String)}

/-- The first half of an event adds its page, if that is derived and written. -/
theorem shelved_written (hstore : Honest store s.directory s.seed)
    (h : Shelved s.directory s.seed t pages) (hnew : s.counter + 1 ∉ pages.map Prod.fst) :
    Shelved s.directory s.seed (written store s t).2 (pages ++ stored [record store s t]) := by
  unfold record written
  cases hd : s.draw.1 with
  | error cause =>
    show Shelved s.directory s.seed t (pages ++ [])
    rwa [List.append_nil]
  | ok content =>
    have hpath : s.draw.2.artifactPath s.draw.2.counter =
        s.directory.join ⟨fileName s.seed (s.counter + 1)⟩ := rfl
    obtain ⟨t', ⟨hw, hshelf⟩ | ⟨cause, hw, hshelf⟩⟩ := hstore.write content h hnew
    · dsimp only
      rw [persist, hpath, hw]
      exact hshelf
    · dsimp only
      rw [persist, hpath, hw]
      show Shelved s.directory s.seed t' (pages ++ [])
      rwa [List.append_nil]

/-- One event adds its page and drops the page that leaves the window, if it can. -/
theorem shelved_generate (hstore : Honest store s.directory s.seed) (hrun : s.state = .running)
    (h : Shelved s.directory s.seed t pages)
    (hpages : ∀ page ∈ pages, 0 < page.1 ∧ page.1 ≤ s.counter) :
    Shelved s.directory s.seed (s.generate store t).2.2
      ((pages ++ stored [record store s t]).filter fun page =>
        page.1 + s.retention.window ≠ s.counter + 1 || (record store s t).removalFailed) := by
  have hnew : s.counter + 1 ∉ pages.map Prod.fst := by
    intro hmem
    obtain ⟨page, hpage, he⟩ := List.mem_map.mp hmem
    have := (hpages page hpage).2
    omega
  have hwritten := shelved_written hstore h hnew
  have hpositive : ∀ page ∈ pages ++ stored [record store s t], 0 < page.1 := by
    intro page hpage
    rcases List.mem_append.mp hpage with hold | hlast
    · exact (hpages page hold).1
    · obtain ⟨e, he, hnumber, -⟩ := mem_stored.mp hlast
      rw [List.mem_singleton.mp he] at hnumber
      exact hnumber ▸ Nat.succ_pos s.counter
  rw [files_generate store t hrun]
  cases he : s.retention.evictee (s.counter + 1) with
  | none =>
    -- the first pages of a session: the window holds them all
    have hall : ∀ page ∈ pages ++ stored [record store s t],
        page.1 + s.retention.window ≠ s.counter + 1 := by
      intro page hpage hleaves
      have hsome := Retention.evictee_eq_some.mpr ⟨hpositive page hpage, hleaves.symm⟩
      rw [he] at hsome
      cases hsome
    rw [List.filter_eq_self.mpr fun page hpage => by simp [hall page hpage]]
    exact hwritten
  | some n =>
    obtain ⟨-, hn⟩ := Retention.evictee_eq_some.mp he
    have hremoval : (record store s t).removal =
        some (store.remove (written store s t).2 (s.artifactPath n)).1 := by
      show (s.retention.evictee (s.counter + 1)).map _ = _
      rw [he]
      rfl
    obtain ⟨t', ⟨hr, hshelf⟩ | ⟨cause, hr, hshelf⟩⟩ := hstore.remove n hwritten
    · rw [artifactPath_eq, hr] at hremoval
      dsimp only
      rw [artifactPath_eq, hr]
      have hfailed : (record store s t).removalFailed = false := by
        rw [Event.removalFailed, hremoval]
      rw [hfailed, hn]
      simpa using hshelf
    · rw [artifactPath_eq, hr] at hremoval
      dsimp only
      rw [artifactPath_eq, hr]
      have hfailed : (record store s t).removalFailed = true := by
        rw [Event.removalFailed, hremoval]
      rw [hfailed, List.filter_eq_self.mpr fun page _ => by simp]
      exact hshelf

end

section
variable {stores : Nat → Storage FileTree} {s : Session} {t : FileTree}

/-- After any number of events the directory holds the kept pages and nothing else. -/
theorem shelved_events (hstores : ∀ n, Honest (stores n) s.directory s.seed)
    (hrun : s.state = .running) (h : Shelved s.directory s.seed t []) (k : Nat) :
    Shelved s.directory s.seed (events stores k s t).2
      (kept s.retention.window (s.counter + k) (history stores k s t)) := by
  induction k with
  | zero => exact h
  | succ k ih =>
    let before := events stores k s t
    have hbefore : before.1 = skip k s := session_events stores k t hrun
    have hdirectory : before.1.directory = s.directory := by rw [hbefore, directory_skip]
    have hseed : before.1.seed = s.seed := by rw [hbefore, seed_skip]
    have hretention : before.1.retention = s.retention := by rw [hbefore, retention_skip]
    have hcounter : before.1.counter = s.counter + k := counter_events stores k t hrun
    -- the numbers so far are those of events before this one, so the next number is a new one
    have hpages : ∀ page ∈ kept s.retention.window (s.counter + k) (history stores k s t),
        0 < page.1 ∧ page.1 ≤ before.1.counter := by
      intro page hpage
      obtain ⟨i, hi, hnumber, -⟩ := mem_stored_history hrun (List.mem_filter.mp hpage).1
      omega
    have hpast : ∀ e ∈ history stores k s t, e.number ≤ s.counter + k := by
      intro e he
      have hmem := List.mem_map_of_mem (f := Event.number) he
      rw [numbers_history stores k t hrun, List.mem_range'_1] at hmem
      omega
    have hnumber : (record (stores (before.1.counter + 1)) before.1 before.2).number =
        s.counter + k + 1 := congrArg (· + 1) hcounter
    have hstep := shelved_generate (s := before.1) (t := before.2)
      (hdirectory ▸ hseed ▸ hstores (before.1.counter + 1)) (state_events stores k t hrun)
      (by rw [hdirectory, hseed]; exact ih) hpages
    rw [hdirectory, hseed, hretention, hcounter] at hstep
    rw [history_succ, ← Nat.add_assoc, kept_append s.retention.window_pos hpast hnumber]
    exact hcounter ▸ hstep

end

/-- Pages with numbers of their own that can be removed fill at most the window. -/
theorem length_kept_le {window last : Nat} {past : List Event}
    (hpast : ∀ e ∈ past, e.number ≤ last) (hnodup : (past.map Event.number).Nodup)
    (hremoved : ∀ page ∈ stored past, removalFailed past (page.1 + window) = false) :
    (kept window last past).length ≤ window := by
  have hsub : ((stored past).map Prod.fst).Sublist (past.map Event.number) := by
    clear hpast hnodup hremoved
    induction past with
    | nil => exact List.Sublist.slnil
    | cons e es ih =>
      unfold stored at ih ⊢
      rw [List.filterMap_cons]
      cases e.stored with
      | none => exact ih.cons _
      | some text => exact ih.cons_cons _
  have hkept : ((kept window last past).map Prod.fst).Nodup :=
    (hnodup.sublist hsub).sublist (List.filter_sublist.map _)
  have hrange : (kept window last past).map Prod.fst ⊆ List.range' (last + 1 - window) window := by
    intro n hn
    obtain ⟨page, hpage, rfl⟩ := List.mem_map.mp hn
    obtain ⟨hstored, hstays⟩ := List.mem_filter.mp hpage
    rw [hremoved page hstored, Bool.or_false, decide_eq_true_eq] at hstays
    obtain ⟨e, he, hnumber, -⟩ := mem_stored.mp hstored
    have hle := hpast e he
    rw [List.mem_range'_1]
    omega
  calc (kept window last past).length
      = ((kept window last past).map Prod.fst).length := by rw [List.length_map]
    _ ≤ (List.range' (last + 1 - window) window).length := (hkept.subperm hrange).length_le
    _ = window := List.length_range'

/-! ## from the start on -/

/-- A session starts in an empty directory. -/
theorem holds_start {config : SessionConfig} {grammar : Grammar} {t t' : FileTree} {s : Session}
    (h : start config grammar t = (.ok s, t')) : t'.Holds s.directory .nil := by
  obtain ⟨retention, -, -, hclaim, rfl⟩ := start_eq_ok h
  show t'.Holds (skip _ _).directory .nil
  rw [directory_skip]
  unfold claimDirectory at hclaim
  split at hclaim
  · cases hclaim
  · split at hclaim
    · cases hclaim
    · split at hclaim
      · next hmade =>
        cases hclaim
        exact FileTree.holds_makeDir hmade
      · cases hclaim
      · cases hclaim

/-- **What a session keeps.**  After any number of events of a session that has started, its
directory holds the files of the kept pages and nothing else, whichever operations have failed and
whatever others have done to other files.  The file of a page has the text that was generated at
its number.  If every page that was written could be removed, there are no more files than the
window has room for. -/
theorem folder?_events {config : SessionConfig} {grammar : Grammar} {t t' : FileTree} {s : Session}
    (h : start config grammar t = (.ok s, t')) (hazards : Nat → Hazard)
    (hwrite : ∀ n, Spares s.directory (hazards n).beforeWrite)
    (hremove : ∀ n, Spares s.directory (hazards n).beforeRemove) (k : Nat) :
    let stores := fun n => (hazards n).storage
    let last := (events stores k s t').1.counter
    let files := (events stores k s t').2
    let past := history stores k s t'
    let pages := kept config.window last past
    past.map Event.number = List.range' config.startAt k ∧
      (∃ f, files.folder? s.directory = some f ∧
        f.names = pages.map fun page => fileName config.seed page.1) ∧
      (∀ page ∈ pages, files.contents (s.artifactPath page.1) = .ok page.2.toByteArray ∧
        expansion config.seed grammar config.limits config.startSymbol page.1 = .ok page.2) ∧
      ((∀ page ∈ stored past, removalFailed past (page.1 + config.window) = false) →
        pages.length ≤ config.window) := by
  intro stores last files past pages
  have hrun := state_start h
  have hcourse := onCourse_start h
  have hwindow : s.retention.window = config.window := by
    obtain ⟨retention, hw, -, -, rfl⟩ := start_eq_ok h
    rw [← hw]
    exact congrArg Retention.window (retention_skip _ _)
  have hstores : ∀ n, Honest (stores n) s.directory s.seed :=
    fun n => honest_hazard s.seed (hwrite n) (hremove n)
  have hnumbers := numbers_history stores k t' hrun
  rw [counter_start h] at hnumbers
  have hshelved := shelved_events hstores hrun ⟨.nil, shelf_empty s.seed (holds_start h)⟩ k
  rw [hwindow, ← counter_events stores k t' hrun, hcourse.seed_eq] at hshelved
  obtain ⟨f, hshelf⟩ := hshelved
  refine ⟨hnumbers, ⟨f, hshelf.holds.folder?_eq, hshelf.names_eq⟩, fun page hpage => ⟨?_, ?_⟩, ?_⟩
  · rw [artifactPath_eq, hcourse.seed_eq]
    exact hshelf.contents hpage
  · obtain ⟨i, -, hnumber, htext⟩ := mem_stored_history hrun (List.mem_filter.mp hpage).1
    rw [← htext, (hcourse.skip i).fst_draw, counter_skip, hnumber]
  · intro hremoved
    refine length_kept_le (fun e he => ?_) (hnumbers ▸ List.nodup_range' 1) hremoved
    have hmem := List.mem_map_of_mem (f := Event.number) he
    have hstart := counter_start h
    rw [hnumbers, List.mem_range'_1] at hmem
    show e.number ≤ (events stores k s t').1.counter
    rw [counter_events stores k t' hrun]
    omega

/-- Three events with a window of one, where the second event cannot remove the first page. -/
theorem folder?_after_three :
    let config : SessionConfig := { seed := ⟨"1", by decide⟩, window := 1 }
    let grammar : Grammar := ⟨[(Page.startSymbol, [.literal "a"])]⟩
    let elsewhere : FileTree → FileTree := fun t => { t with nextMark := t.nextMark + 1 }
    let hazards : Nat → Hazard := fun n =>
      ⟨elsewhere, none, elsewhere, if n = 2 then some .isDirectory else none⟩
    let stores := fun n => (hazards n).storage
    ∃ s t' f, start config grammar (.ofHere []) = (.ok s, t') ∧
      (events stores 3 s t').2.folder? s.directory = some f ∧
      f.names = (kept 1 (events stores 3 s t').1.counter (history stores 3 s t')).map
        fun page => fileName config.seed page.1 := by
  intro config grammar elsewhere hazards stores
  have hclaim : (claimDirectory config.outputRoot (directoryOf config) (.ofHere [])).1 = .ok () := by
    cbv
  have hfit : validate config = .ok ⟨1, by decide⟩ := rfl
  have hstart : ∃ s t', start config grammar (.ofHere []) = (.ok s, t') := start_of_claim hfit hclaim
  obtain ⟨s, t', h⟩ := hstart
  have hspares : ∀ dir, Spares dir elsewhere := fun _ _ _ hholds => hholds
  obtain ⟨-, ⟨f, hf, hnames⟩, -⟩ :=
    folder?_events h hazards (fun _ => hspares s.directory) (fun _ => hspares s.directory) 3
  exact ⟨s, t', f, h, hf, hnames⟩

end PageFuzz.Session
