import Mathlib
import PageFuzz.Proofs.Corpus.Attempts
import PageFuzz.Proofs.Derivation.Faults

/-!
# A corpus and a session of one seed

A corpus draws its pages in a loop of its own, and a session draws one page in each event, whether
that succeeds or not.  Both draw from the stream of the seed in the same order, so the pages of the
corpus are the pages of the session that succeed.

* `contents_of_written`   the pages of a corpus are read back;
* `Reached`               the events of a session up to the last of some texts;
* `events_eq_pages`       the events of a session and the pages of a corpus.
-/

namespace PageFuzz.Corpus

/-! ## reading pages back -/

section
variable {dir : Path} {t t' : FileTree}

theorem writeFile_of_write {p : Path} {text : String}
    (h : FileTree.storage.write t p text = (.ok (), t')) :
    t.writeFile p text.toByteArray = .ok t' := by
  have hafter : t.after (t.writeFile p text.toByteArray) = (.ok (), t') := h
  cases hw : t.writeFile p text.toByteArray with
  | error cause =>
    rw [hw] at hafter
    cases hafter
  | ok next =>
    rw [hw] at hafter
    exact congrArg Except.ok (Prod.mk.inj hafter).2

/-- A file that is there before some pages are written is there afterwards, with the same content
unless one of the pages is that file. -/
theorem fileSpot_of_written {n : Nat} {texts : List String}
    (h : Written FileTree.storage dir n texts t t') {q : Path} {b : List Name} {x : Name}
    {mark : Nat} {old : ByteArray} (hq : t.fileSpot q = .ok (b, x, some (mark, old))) :
    ∃ content, t'.fileSpot q = .ok (b, x, some (mark, content)) ∧
      (content = old ∨ ∃ j < texts.length, t'.mark? (pagePath dir (n + j)) = some mark) := by
  induction texts generalizing n t q b x old with
  | nil =>
    obtain rfl : t = t' := h
    exact ⟨old, hq, .inl rfl⟩
  | cons text texts ih =>
    obtain ⟨next, hwrite, hrest⟩ := h
    rcases FileTree.fileSpot_writeFile_other (writeFile_of_write hwrite) hq with
      hsame | ⟨hover, hpage⟩
    · obtain ⟨content, hq', hkept⟩ := ih hrest hsame
      refine ⟨content, hq', hkept.imp_right ?_⟩
      rintro ⟨j, hj, hmark⟩
      refine ⟨j + 1, Nat.succ_lt_succ hj, ?_⟩
      rwa [Nat.add_assoc, Nat.add_comm 1] at hmark
    · -- the first page is the same file, and is so still at the end
      obtain ⟨content, hq', -⟩ := ih hrest hover
      obtain ⟨b', x', old', hfirst⟩ := FileTree.mark?_eq_some.mp hpage
      obtain ⟨content', hfirst', -⟩ := ih hrest hfirst
      exact ⟨content, hq', .inr ⟨0, Nat.succ_pos _,
        FileTree.mark?_eq_some.mpr ⟨b', x', content', hfirst'⟩⟩⟩

/-- Each page is read back, unless a later one is the same file under another name or through a
link. -/
theorem contents_of_written {n : Nat} {texts : List String}
    (h : Written FileTree.storage dir n texts t t') (i : Nat) (hi : i < texts.length)
    (hlater : ∀ j, i < j → j < texts.length →
      t'.mark? (pagePath dir (n + j)) ≠ t'.mark? (pagePath dir (n + i))) :
    t'.contents (pagePath dir (n + i)) = .ok texts[i].toByteArray := by
  induction texts generalizing n t i with
  | nil => cases hi
  | cons text texts ih =>
    obtain ⟨next, hwrite, hrest⟩ := h
    cases i with
    | zero =>
      obtain ⟨b, x, mark, hpage⟩ := FileTree.fileSpot_writeFile (writeFile_of_write hwrite)
      obtain ⟨content, hlast, rfl | ⟨j, hj, hmark⟩⟩ := fileSpot_of_written hrest hpage
      · exact FileTree.contents_of_fileSpot hlast
      · refine absurd ?_ (hlater (j + 1) (Nat.succ_pos j) (Nat.succ_lt_succ hj))
        have hfirst : t'.mark? (pagePath dir n) = some mark :=
          FileTree.mark?_eq_some.mpr ⟨b, x, content, hlast⟩
        rw [← Nat.add_assoc, Nat.add_right_comm, hmark]
        exact hfirst.symm
    | succ i =>
      have hshift : ∀ j, n + (j + 1) = n + 1 + j := fun j => by omega
      rw [hshift i]
      refine ih hrest i (Nat.lt_of_succ_lt_succ hi) fun j hij hj => ?_
      rw [← hshift i, ← hshift j]
      exact hlater (j + 1) (Nat.succ_lt_succ hij) (Nat.succ_lt_succ hj)

end

/-! ## the events of a session -/

/-- The texts of the first `k` answers, the last of which is a text, with no more than fifteen
failures in a row. -/
structure Reached (answers : Nat → Except SessionError Artifact) (k : Nat) (texts : List String) :
    Prop where
  within : k ≤ 16 * texts.length
  contents_eq :
    ((List.range k).filterMap fun i => (answers i).toOption.map Artifact.content) = texts
  last : 0 < k → ∃ page, answers (k - 1) = .ok page
  paced : ∀ i, i + 16 ≤ k → ∃ n, i ≤ n ∧ n < i + 16 ∧ ∃ page, answers n = .ok page

section
variable {answers : Nat → Except SessionError Artifact}
  {outcome : Nat → Except ExpansionError String} {bound : Nat}

/-- the answers of events whose files could be written and removed -/
def Tell (answers : Nat → Except SessionError Artifact)
    (outcome : Nat → Except ExpansionError String) (bound : Nat) : Prop :=
  ∀ i < bound, (∃ page, answers i = .ok page ∧ outcome i = .ok page.content) ∨
    ∃ cause, answers i = .error (.expansion cause) ∧ outcome i = .error cause

theorem Tell.ok (h : Tell answers outcome bound) {i : Nat} (hi : i < bound) {text : String}
    (hok : outcome i = .ok text) : ∃ page, answers i = .ok page := by
  rcases h i hi with ⟨page, hpage, -⟩ | ⟨cause, -, hfails⟩
  · exact ⟨page, hpage⟩
  · rw [hok] at hfails
    cases hfails

theorem Tell.error (h : Tell answers outcome bound) {i : Nat} (hi : i < bound)
    {cause : ExpansionError} (hfails : outcome i = .error cause) :
    answers i = .error (.expansion cause) := by
  rcases h i hi with ⟨page, -, hok⟩ | ⟨cause', hcause, hfails'⟩
  · rw [hfails] at hok
    cases hok
  · rw [hfails] at hfails'
    cases hfails'
    exact hcause

theorem Tell.content (h : Tell answers outcome bound) {i : Nat} (hi : i < bound) :
    (answers i).toOption.map Artifact.content = (outcome i).toOption := by
  rcases h i hi with ⟨page, hpage, hok⟩ | ⟨cause, hcause, hfails⟩
  · rw [hpage, hok]
    rfl
  · rw [hcause, hfails]
    rfl

theorem Tell.reached (h : Tell answers outcome bound) {k : Nat} {texts : List String}
    (hpaced : Paced outcome 0 k texts) (hk : k ≤ bound) : Reached answers k texts := by
  have hattempts : attempts = 16 := rfl
  constructor
  · have hle : k ≤ 0 + 16 * texts.length := hpaced.le_attempts
    omega
  · rw [← hpaced.successes_eq, Nat.sub_zero, ← List.range_eq_range']
    exact List.filterMap_congr fun i hi => h.content (by rw [List.mem_range] at hi; omega)
  · intro hpos
    obtain ⟨text, htext⟩ := hpaced.last hpos
    exact h.ok (by omega) htext
  · intro i hi
    obtain ⟨n, hin, hn, text, htext⟩ := hpaced.exists_success (Nat.zero_le i) (by omega)
    exact ⟨n, hin, by omega, h.ok (by omega) htext⟩

end

section
variable {σ : Type} {config : SessionConfig} {grammar : Grammar} {ts ts' : FileTree} {s : Session}

/-- From number one on a session draws the attempts of its seed, one in each event. -/
theorem tell_of_start (hstart : Session.start config grammar ts = (.ok s, ts'))
    (hfirst : config.startAt = 1) (stores : Nat → Storage σ) (files : σ) {bound : Nat}
    (hio : ∀ i < bound, ∀ path cause,
      Session.answer stores i s files ≠ .error (.io path cause)) :
    Tell (fun i => Session.answer stores i s files)
      (outcomes ⟨grammar, config.limits⟩ config.startSymbol config.seed.stream) bound := by
  intro i hi
  have hrun := Session.state_start hstart
  have hcounter := Session.counter_start hstart
  have hcourse := (Session.onCourse_start hstart).skip i
  rw [← Session.session_events stores i files hrun] at hcourse
  have hdraw : (Session.events stores i s files).1.draw.1 =
      outcomes ⟨grammar, config.limits⟩ config.startSymbol config.seed.stream i := by
    rw [hcourse.fst_draw, Session.counter_events stores i files hrun]
    have hnumber : s.counter + i = i := by omega
    rw [hnumber]
    rfl
  have htells := Session.generate_tells
    (stores ((Session.events stores i s files).1.counter + 1)) (Session.events stores i s files).2
    (Session.state_events stores i files hrun)
  have hspared := hio i hi
  rw [hdraw] at htells
  show (∃ page, Session.answer stores i s files = .ok page ∧ _) ∨
    ∃ cause, Session.answer stores i s files = .error (.expansion cause) ∧ _
  cases hanswer : Session.answer stores i s files with
  | ok page =>
    rw [Session.answer] at hanswer
    rw [hanswer] at htells
    exact .inl ⟨page, rfl, htells.2⟩
  | error fault =>
    have hsaid := hanswer
    rw [Session.answer] at hsaid
    rw [hsaid] at htells
    cases fault with
    | expansion cause => exact .inr ⟨cause, rfl, htells⟩
    | io path cause => exact absurd hanswer (hspared path cause)
    | configuration fault => exact htells.elim
    | illegalTransition source target => exact htells.elim
    | notRunning state => exact htells.elim

end

/-! ## a page that is always the same -/

section
variable {σ : Type}

/-- A grammar of one literal leaves nothing to chance. -/
theorem fst_generate_literal (limits : Limits) (start text : String) (c : Chooser σ) (s : σ) :
    ((Expander.mk ⟨[(start, [.literal text])]⟩ limits).generate c start s).1 =
      limits.append "" text := by
  have hrule : Grammar.alternatives? ⟨[(start, [.literal text])]⟩ start = some [.literal text] := by
    show List.lookup start [(start, [Alternative.literal text])] = _
    rw [List.lookup_cons, BEq.rfl]
  have honly : ∀ answer, Expander.clamped (.literal text) [] answer = .literal text := fun answer =>
    List.mem_singleton.mp (Expander.clamped_mem (.literal text) [] answer)
  rw [Expander.generate_eq_derive, Expander.derive, Expander.deriveName_of_alternatives _ _ hrule,
    honly]
  rfl

theorem fst_drawWithin {e : Expander} {c : Chooser σ} {start : String}
    {answer : Except ExpansionError String} (h : ∀ s, (e.generate c start s).1 = answer)
    (more : Nat) (s : σ) : (drawWithin e c start more s).1 = answer := by
  induction more generalizing s with
  | zero => exact h s
  | succ more ih =>
    have hfirst := h s
    rw [drawWithin]
    split
    · next cause next hgenerate =>
      rw [hgenerate] at hfirst
      split
      · exact ih next
      · exact hfirst
    · next page next hgenerate => rwa [hgenerate] at hfirst

end

/-- files that can always be written and removed -/
def carefree : Storage Unit := ⟨fun files _ _ => (.ok (), files), fun files _ => (.ok (), files)⟩

theorem answer_carefree (s : Session) (i : Nat) (path : Path) (cause : IoCause) :
    Session.answer (fun _ => carefree) i s () ≠ .error (.io path cause) := by
  intro h
  unfold Session.answer Session.generate at h
  dsimp only at h
  split at h
  · cases h
  · have hevict : ∀ s, Session.evict carefree s () = (.ok (), ()) := by
      intro s
      unfold Session.evict
      split <;> rfl
    rw [hevict] at h
    dsimp only at h
    split at h <;> cases h

/-! ## the corpus and the session -/

/-- **A corpus and a session of one seed have the same pages.**  Both have the same built grammar,
limits and start symbol; the session starts at one, and all its files can be written and removed.
If the corpus is made, its pages are written with the texts of the first `count` events that
succeed, in order, and each is read back unless a later page is the same file, by a link or by
another name that it had; the last of those events is among the first `16 * count`, and there are
never sixteen failures in a row before it.  If the corpus meets an error in drawing a page, then
the pages before that one are those of the events that succeed, and after the last of these events,
or from the start, sixteen events in a row fail, the last with that very error. -/
theorem events_eq_pages {σ : Type} {d : Draft} {config : SessionConfig} {grammar : Grammar}
    {ts ts' t t' : FileTree} {s : Session} {dir : Path} {count : Nat}
    {r : Except SessionError (List Path)} {stream' : Random.RandomStream}
    (hbuild : d.build = .ok grammar) (hsymbol : grammar.contains config.startSymbol = true)
    (hstart : Session.start config grammar ts = (.ok s, ts')) (hfirst : config.startAt = 1)
    (stores : Nat → Storage σ) (files : σ)
    (hio : ∀ i < 16 * count, ∀ path cause,
      Session.answer stores i s files ≠ .error (.io path cause))
    (hcorpus : generate dir count ⟨grammar, config.limits⟩ config.startSymbol .uniform
      config.seed.stream t = (r, stream', t')) :
    let answers := fun i => Session.answer stores i s files
    (∀ paths, r = .ok paths → ∃ texts k, texts.length = count ∧ Reached answers k texts ∧
      paths = pagePaths dir 1 count ∧ Written FileTree.storage dir 1 texts t t' ∧
      ∀ i, (hi : i < texts.length) →
        (∀ j, i < j → j < texts.length →
          t'.mark? (pagePath dir (1 + j)) ≠ t'.mark? (pagePath dir (1 + i))) →
        t'.contents (pagePath dir (1 + i)) = .ok texts[i].toByteArray) ∧
    ∀ cause, r = .error (.expansion cause) → ∃ texts k, texts.length < count ∧
      Reached answers k texts ∧ Written FileTree.storage dir 1 texts t t' ∧
      (∀ i < 16, ∃ cause, answers (k + i) = .error (.expansion cause)) ∧
      answers (k + 15) = .error (.expansion cause) := by
  intro answers
  let e : Expander := ⟨grammar, config.limits⟩
  have hattempts : attempts = 16 := rfl
  have htell : Tell answers (outcomes e config.startSymbol config.seed.stream) (16 * count) :=
    tell_of_start hstart hfirst stores files hio
  have hlimit : ∀ n cause, outcomes e config.startSymbol config.seed.stream n = .error cause →
      cause.isLimit = true := by
    intro n cause hcause
    exact Expander.isLimit_of_generate (e := e) (c := .uniform)
      (Grammar.closed_of_build hbuild) hsymbol (Prod.ext hcause rfl)
  unfold generate at hcorpus
  split at hcorpus
  · have hbound : ∀ {k : Nat} {texts : List String},
        Paced (outcomes e config.startSymbol config.seed.stream) 0 k texts →
        k ≤ 16 * texts.length := by
      intro k texts hpaced
      have hle : k ≤ 0 + 16 * texts.length := hpaced.le_attempts
      omega
    rcases writePages_cases (m := 0) hlimit hcorpus with
      ⟨texts, k, rfl, hlength, hpaced, hwritten⟩ |
      ⟨texts, k, cause, rfl, hlength, hpaced, hwritten, hfails, hlast⟩ | ⟨path, cause, rfl⟩
    · have hk := hbound hpaced
      refine ⟨fun paths hpaths => ?_, nofun⟩
      cases hpaths
      exact ⟨texts, k, hlength, htell.reached hpaced (by omega), rfl, hwritten,
        contents_of_written hwritten⟩
    · have hk := hbound hpaced
      refine ⟨nofun, fun cause' hcause => ?_⟩
      cases hcause
      refine ⟨texts, k, hlength, htell.reached hpaced (by omega), hwritten, fun i hi => ?_, ?_⟩
      · obtain ⟨cause', hcause⟩ := hfails i (by omega)
        exact ⟨cause', htell.error (by omega) hcause⟩
      · exact htell.error (by omega) hlast
    · exact ⟨nofun, nofun⟩
  · cases hcorpus
    exact ⟨nofun, nofun⟩

/-- Two pages of one literal: a corpus that is made, and one that has no room for the text. -/
theorem events_eq_pages_of_two :
    let grammar : Grammar := ⟨[("p", [.literal "a"])]⟩
    let config : SessionConfig := { seed := ⟨"1", by decide⟩, startSymbol := "p" }
    let tight : SessionConfig := { config with limits := { maxOutput := 0 } }
    let here : FileTree := .ofHere []
    let dir : Path := ⟨[Path.dot]⟩
    (∃ s ts' paths stream' t' texts k, Session.start config grammar here = (.ok s, ts') ∧
      generate dir 2 ⟨grammar, config.limits⟩ "p" .uniform config.seed.stream here =
        (.ok paths, stream', t') ∧
      texts.length = 2 ∧ Reached (fun i => Session.answer (fun _ => carefree) i s ()) k texts) ∧
    ∃ s ts' stream' t' cause, Session.start tight grammar here = (.ok s, ts') ∧
      generate dir 2 ⟨grammar, tight.limits⟩ "p" .uniform tight.seed.stream here =
        (.error (.expansion cause), stream', t') ∧
      ∃ k, Session.answer (fun _ => carefree) (k + 15) s () = .error (.expansion cause) := by
  intro grammar config tight here dir
  have hbuild : (Draft.ofDeclarations [.literal "p" "a"]).build = .ok grammar := by cbv
  have hsymbol : grammar.contains "p" = true := by cbv
  have hdir : here.isDir dir = true := by cbv
  have hdraw : ∀ limits stream, (drawPage ⟨grammar, limits⟩ .uniform "p" stream).1 =
      limits.append "" "a" := fun limits =>
    fst_drawWithin (fst_generate_literal limits "p" "a" .uniform) (attempts - 1)
  constructor
  · obtain ⟨s, ts', hstart⟩ : ∃ s t', Session.start config grammar here = (.ok s, t') :=
      Session.start_of_claim rfl (by cbv)
    have hpage : ∀ stream, ∃ next, drawPage ⟨grammar, config.limits⟩ .uniform "p" stream =
        (.ok "a ", next) := fun stream => ⟨_, Prod.ext (hdraw config.limits stream) rfl⟩
    obtain ⟨next, hfirst⟩ := hpage config.seed.stream
    obtain ⟨last, hsecond⟩ := hpage next
    have hcorpus : ∃ paths t', generate dir 2 ⟨grammar, config.limits⟩ "p" .uniform
        config.seed.stream here = (.ok paths, last, t') := by
      have hwrite : ∃ t₁ t₂, FileTree.storage.write here (pagePath dir 1) "a " = (.ok (), t₁) ∧
          FileTree.storage.write t₁ (pagePath dir 2) "a " = (.ok (), t₂) :=
        ⟨_, _, by cbv, by cbv⟩
      obtain ⟨t₁, t₂, hone, htwo⟩ := hwrite
      refine ⟨[pagePath dir 1, pagePath dir 2], t₂, ?_⟩
      rw [generate, if_pos hdir, writePages, hfirst]
      dsimp only
      rw [hone]
      dsimp only
      rw [writePages, hsecond]
      dsimp only
      rw [htwo]
      rfl
    obtain ⟨paths, t', hcorpus⟩ := hcorpus
    obtain ⟨texts, k, hlength, hreached, -⟩ := (events_eq_pages hbuild hsymbol hstart rfl
      (fun _ => carefree) () (fun i _ => answer_carefree s i) hcorpus).1 paths rfl
    exact ⟨s, ts', paths, last, t', texts, k, hstart, hcorpus, hlength, hreached⟩
  · obtain ⟨s, ts', hstart⟩ : ∃ s t', Session.start tight grammar here = (.ok s, t') :=
      Session.start_of_claim rfl (by cbv)
    obtain ⟨next, hfirst⟩ : ∃ next, drawPage ⟨grammar, tight.limits⟩ .uniform "p"
        tight.seed.stream = (.error (.outputExceeded 0), next) :=
      ⟨_, Prod.ext (hdraw tight.limits tight.seed.stream) rfl⟩
    have hcorpus : generate dir 2 ⟨grammar, tight.limits⟩ "p" .uniform tight.seed.stream here =
        (.error (.expansion (.outputExceeded 0)), next, here) := by
      rw [generate, if_pos hdir, writePages, hfirst]
    obtain ⟨texts, k, -, -, -, -, hlast⟩ := (events_eq_pages hbuild hsymbol hstart rfl
      (fun _ => carefree) () (fun i _ => answer_carefree s i) hcorpus).2 _ rfl
    exact ⟨s, ts', next, here, _, hstart, hcorpus, k, hlast⟩

end PageFuzz.Corpus
