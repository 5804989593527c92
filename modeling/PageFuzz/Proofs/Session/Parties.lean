import PageFuzz.Proofs.Session.Claim

/-!
# A party and its requests

A party starts a session, asks it for pages and stops it.  What it is told and what it does to the
files depends on what it can see of them: before its session whether the name of its directory is
free, and from then on the files in that directory.

* `Party.act`        one request of a party, and what comes of it;
* `Alike`            the same files in the directory of a session, in two trees;
* `Same`             all that a party sees is the same in two trees;
* `act_same`         a request on two such trees;
* `rooted_of_act`    the first request that does anything finds the root or makes it;
* `act_of_absent`    a request that makes the root first.
-/

namespace PageFuzz.Session

/-! ## parties -/

structure Party where
  config : SessionConfig
  grammar : Grammar

inductive Request where
  | start
  | generate
  | stop
deriving DecidableEq

/-- What a request comes to: a page if it was for one, or an error.  There is no answer where there
is no session yet. -/
abbrev Answer := Option (Except SessionError (Option Artifact))

namespace Party

def directory (p : Party) : Path := directoryOf p.config

def name (p : Party) : Name := seedName p.config.seed

/-- One request.  A start that fails leaves the session that there is. -/
def act (p : Party) (request : Request) (session : Option Session) (t : FileTree) :
    Answer × Option Session × FileTree :=
  match request, session with
  | .start, session =>
    match Session.start p.config p.grammar t with
    | (.ok s, t) => (some (.ok none), some s, t)
    | (.error e, t) => (some (.error e), session, t)
  | .generate, none => (none, none, t)
  | .generate, some s =>
    let event := s.generate FileTree.storage t
    (some (event.1.map some), some event.2.1, event.2.2)
  | .stop, none => (none, none, t)
  | .stop, some s =>
    match s.stop with
    | .ok s' => (some (.ok none), some s', t)
    | .error e => (some (.error e), some s, t)

section
variable {p : Party} {session : Option Session} {s s' : Session} {t t' : FileTree}

theorem act_start_ok (h : Session.start p.config p.grammar t = (.ok s, t')) :
    p.act .start session t = (some (.ok none), some s, t') := by
  unfold act
  rw [h]

theorem act_start_error {e : SessionError}
    (h : Session.start p.config p.grammar t = (.error e, t')) :
    p.act .start session t = (some (.error e), session, t') := by
  unfold act
  rw [h]

theorem act_stop (p : Party) (s : Session) (t : FileTree) :
    p.act .stop (some s) t =
      match s.stop with
      | .ok s' => (some (.ok none), some s', t)
      | .error e => (some (.error e), some s, t) := rfl

end

end Party

/-! ## two trees that are alike for a session -/

/-- Both trees have the directory in one place, and in it the same files, under names of which
`own` holds. -/
def Alike (dir : Path) (base : List Name) (x : Name) (own : Name → Prop) (t u : FileTree) : Prop :=
  ∃ f g, FileTree.Site t dir base x f ∧ FileTree.Site u dir base x g ∧ f.onlyFiles = true ∧
    g.onlyFiles = true ∧ f.unmarked = g.unmarked ∧ ∀ z ∈ f.names, own z

namespace Alike

variable {dir : Path} {base : List Name} {x y : Name} {own own' : Name → Prop}
  {t t' u u' : FileTree}

theorem mono (h : Alike dir base x own t u) (hle : ∀ z, own z → own' z) :
    Alike dir base x own' t u := by
  obtain ⟨f, g, hf, hg, hfiles, hgiles, hsame, hnames⟩ := h
  exact ⟨f, g, hf, hg, hfiles, hgiles, hsame, fun z hz => hle z (hnames z hz)⟩

/-- An alike pair stays alike when both trees are changed beside the directory. -/
theorem apart (h : Alike dir base x own t u) (hne : x ≠ y)
    (ht : FileTree.OnlyBelow (base ++ [y]) t t') (hu : FileTree.OnlyBelow (base ++ [y]) u u') :
    Alike dir base x own t' u' := by
  obtain ⟨f, g, hf, hg, hrest⟩ := h
  exact ⟨f, g, hf.apart hne ht, hg.apart hne hu, hrest⟩

/-- A new file is made in both trees, or in neither. -/
theorem write (h : Alike dir base x own t u) (hy : Path.IsFileName y) (hnew : ¬ own y)
    (text : String) :
    (FileTree.storage.write t (dir.join ⟨y⟩) text).1 =
        (FileTree.storage.write u (dir.join ⟨y⟩) text).1 ∧
      Alike dir base x (fun z => own z ∨ z = y) (FileTree.storage.write t (dir.join ⟨y⟩) text).2
        (FileTree.storage.write u (dir.join ⟨y⟩) text).2 ∧
      FileTree.OnlyBelow (base ++ [x]) t (FileTree.storage.write t (dir.join ⟨y⟩) text).2 := by
  obtain ⟨f, g, hf, hg, hfiles, hgiles, hsame, hnames⟩ := h
  have hfresh : y ∉ f.names := fun hmem => hnew (hnames y hmem)
  have hgnames : g.names = f.names := by
    rw [← Folder.names_unmarked, ← hsame, Folder.names_unmarked]
  obtain ⟨t', f', ht, hf', hfiles', hmarks, hbelow⟩ := hf.write hfiles hy hfresh text
  obtain ⟨u', g', hu, hg', hgiles', hmarks', -⟩ :=
    hg.write hgiles hy (hgnames ▸ hfresh) text
  have hnames' : ∀ z ∈ f'.names, own z ∨ z = y := by
    intro z hz
    rw [← Folder.names_unmarked, hmarks] at hz
    split at hz
    · rw [Folder.names_unmarked] at hz
      exact .inl (hnames z hz)
    · rw [Folder.names_put _ (Folder.names_unmarked f ▸ hfresh), Folder.names_unmarked,
        List.mem_append, List.mem_singleton] at hz
      exact hz.imp_left (hnames z)
  rw [ht, hu]
  rw [hsame, ← hmarks'] at hmarks
  exact ⟨rfl, ⟨f', g', hf', hg', hfiles', hgiles', hmarks, hnames'⟩, hbelow⟩

theorem remove (h : Alike dir base x own t u) (hy : Path.IsFileName y) :
    (FileTree.storage.remove t (dir.join ⟨y⟩)).1 = (FileTree.storage.remove u (dir.join ⟨y⟩)).1 ∧
      Alike dir base x own (FileTree.storage.remove t (dir.join ⟨y⟩)).2
        (FileTree.storage.remove u (dir.join ⟨y⟩)).2 ∧
      FileTree.OnlyBelow (base ++ [x]) t (FileTree.storage.remove t (dir.join ⟨y⟩)).2 := by
  obtain ⟨f, g, hf, hg, hfiles, hgiles, hsame, hnames⟩ := h
  obtain ⟨t', f', ht, hf', hfiles', hmarks, hbelow⟩ := hf.remove hfiles hy
  obtain ⟨u', g', hu, hg', hgiles', hmarks', -⟩ := hg.remove hgiles hy
  have hnames' : ∀ z ∈ f'.names, own z := by
    intro z hz
    rw [← Folder.names_unmarked, hmarks] at hz
    refine hnames z ?_
    rw [← Folder.names_unmarked]
    split at hz
    · exact hz
    · split at hz
      · rw [Folder.names_erase] at hz
        exact List.mem_of_mem_erase hz
      · exact hz
  rw [ht, hu, hsame]
  rw [hsame, ← hmarks'] at hmarks
  exact ⟨rfl, ⟨f', g', hf', hg', hfiles', hgiles', hmarks, hnames'⟩, hbelow⟩

end Alike

/-- the name of a page that the session has come to -/
def Past (s : Session) (y : Name) : Prop := ∃ n ≤ s.counter, y = fileName s.seed n

/-- All that a party sees of the files: before its session whether the name is free, and then its
directory, with no page that the session has not come to. -/
def Same (p : Party) (base : List Name) : Option Session → FileTree → FileTree → Prop
  | none, t, u => t.root.node? base p.name = u.root.node? base p.name
  | some s, t, u =>
    s.directory = p.directory ∧ s.seed = p.config.seed ∧
      Alike p.directory base p.name (Past s) t u

/-- what a request of one party does to its session and to the files -/
structure Moved (loc : List Name) (session session' : Option Session) (t t' : FileTree) : Prop where
  below : FileTree.OnlyBelow loc t t'
  still : session' = none → t' = t
  kept : session.isSome = true → session'.isSome = true

/-- the results of one request on two trees that are alike for its party, and what it does to the
first of them -/
structure SameResult (p : Party) (base : List Name) (session : Option Session) (t : FileTree)
    (a b : Answer × Option Session × FileTree) : Prop where
  answer_eq : a.1 = b.1
  session_eq : a.2.1 = b.2.1
  same : Same p base a.2.1 a.2.2 b.2.2
  moved : Moved (base ++ [p.name]) session a.2.1 t a.2.2

section
variable {p : Party} {root : Path} {base : List Name} {t u : FileTree} {session : Option Session}

theorem Moved.refl (loc : List Name) (session : Option Session) (t : FileTree) :
    Moved loc session session t t :=
  ⟨.refl loc t, fun _ => rfl, id⟩

theorem Same.node_eq (h : Same p base session t u) :
    t.root.node? base p.name = u.root.node? base p.name := by
  cases session with
  | none => exact h
  | some s =>
    obtain ⟨-, -, f, g, hf, hg, -⟩ := h
    rw [Folder.node?_eq_dir hf.at_eq, Folder.node?_eq_dir hg.at_eq]

/-- Nothing has changed. -/
theorem Same.still (h : Same p base session t u) (answer : Answer) :
    SameResult p base session t (answer, session, t) (answer, session, u) :=
  ⟨rfl, rfl, h, .refl _ _ _⟩

/-- A new directory is below the root and nothing else is changed. -/
theorem moved_claim (ht : Rooted root base t) (hfree : t.root.node? base p.name = none)
    (s : Session) :
    Moved (base ++ [p.name]) session (some s) t (t.put base p.name (.dir .nil)) := by
  obtain ⟨g, hg⟩ := ht.found
  have hfile : ∀ node, g.find? p.name = some node → node.kind = .file := fun _ =>
    Folder.kind_of_free ((Folder.node?_eq_none_iff hg).mp hfree)
  refine ⟨.of_within (fun f y hy => ?_) hg hfile List.prefix_rfl rfl rfl, nofun, fun _ => rfl⟩
  exact Folder.find?_put_of_ne (Ne.symm hy) _ f

/-- A start on two trees with the root in one place. -/
theorem start_same (ht : Rooted root base t) (hu : Rooted root base u)
    (hroot : p.config.outputRoot = root) (h : Same p base session t u) :
    SameResult p base session t (p.act .start session t) (p.act .start session u) := by
  subst hroot
  have hstill : ∀ {e : SessionError}, start p.config p.grammar t = (.error e, t) →
      start p.config p.grammar u = (.error e, u) →
      SameResult p base session t (p.act .start session t) (p.act .start session u) := by
    intro e het heu
    rw [Party.act_start_error het, Party.act_start_error heu]
    exact h.still _
  cases hfit : validate p.config with
  | error fault => exact hstill (start_of_unfit hfit) (start_of_unfit hfit)
  | ok retention =>
    have hx : Path.IsFileName p.name := isFileName_seed p.config.seed
    have hct := claim_of_rooted ht hx
    have hcu := claim_of_rooted hu hx
    rw [← h.node_eq] at hcu
    by_cases hlong : p.config.outputRoot.TooLong p.name
    · rw [if_pos hlong] at hct hcu
      obtain ⟨answer, hst, hsu, herror, -⟩ := start_congr p.grammar hfit hct hcu
      cases herror _ rfl
      exact hstill hst hsu
    · cases hentry : t.root.node? base p.name with
      | some node =>
        rw [if_neg hlong, hentry, if_pos Option.isSome_some] at hct hcu
        obtain ⟨answer, hst, hsu, herror, -⟩ := start_congr p.grammar hfit hct hcu
        cases herror _ rfl
        exact hstill hst hsu
      | none =>
        have hentryu : u.root.node? base p.name = none := h.node_eq ▸ hentry
        have hnone : ¬ (none : Option Node).isSome = true := Bool.false_ne_true
        rw [if_neg hlong, hentry, if_neg hnone] at hct hcu
        obtain ⟨answer, hst, hsu, -, hok⟩ := start_congr p.grammar hfit hct hcu
        obtain ⟨s, rfl⟩ := hok rfl
        obtain ⟨-, -, hsite⟩ := ht.free hx hlong hentry
        obtain ⟨-, -, hsiteu⟩ := hu.free hx hlong hentryu
        obtain ⟨retention', -, -, -, hs⟩ := start_eq_ok hst
        have hdirectory : s.directory = p.directory := by
          rw [hs]
          exact directory_skip _ _
        have hseed : s.seed = p.config.seed := by
          rw [hs]
          exact seed_skip _ _
        have halike : Alike p.directory base p.name (Past s) (t.put base p.name (.dir .nil))
            (u.put base p.name (.dir .nil)) := ⟨.nil, .nil, hsite, hsiteu, rfl, rfl, rfl, nofun⟩
        rw [Party.act_start_ok hst, Party.act_start_ok hsu]
        exact ⟨rfl, rfl, ⟨hdirectory, hseed, halike⟩, moved_claim ht hentry s⟩

/-- An event on two trees that are alike for its session. -/
theorem generate_same {s : Session} (h : Same p base (some s) t u) :
    SameResult p base (some s) t (p.act .generate (some s) t) (p.act .generate (some s) u) := by
  by_cases hrun : s.state = .running
  · obtain ⟨hdirectory, hseed, halike⟩ := h
    let R : (Name → Prop) → FileTree → FileTree → Prop := fun own t' u' =>
      Alike p.directory base p.name own t' u' ∧ FileTree.OnlyBelow (base ++ [p.name]) t t'
    have hpath : ∀ n, s.artifactPath n = p.directory.join ⟨fileName s.seed n⟩ := by
      intro n
      rw [artifactPath_eq, hdirectory]
    -- the page of the next number has not been there
    have hnew : ¬ Past s (fileName s.seed (s.counter + 1)) := by
      rintro ⟨n, hn, he⟩
      rw [← fileName_injective he] at hn
      exact Nat.not_succ_le_self _ hn
    have hpast : ∀ y, Past s y ∨ y = fileName s.seed (s.counter + 1) → Past s.draw.2 y := by
      rintro y (⟨n, hn, rfl⟩ | rfl)
      · exact ⟨n, Nat.le_succ_of_le hn, rfl⟩
      · exact ⟨s.counter + 1, Nat.le_refl _, rfl⟩
    have hstart : R (Past s) t u := ⟨halike, .refl _ t⟩
    obtain ⟨hanswer, hsession, hfiles, ht⟩ := generate_congr (R := R (Past s))
      (Q := R (Past s.draw.2)) (A := FileTree.storage) (B := FileTree.storage) hrun
      (fun a b text hab => by
        rw [hpath]
        obtain ⟨hsame, hwritten, hbelow⟩ := hab.1.write (isFileName s.seed _) hnew text
        exact ⟨hsame, hwritten.mono hpast, hab.2.trans hbelow⟩)
      (fun a b hab => ⟨hab.1.mono fun y hy => hpast y (.inl hy), hab.2⟩)
      (fun a b n hab => by
        rw [hpath]
        obtain ⟨hsame, hremoved, hbelow⟩ := hab.1.remove (isFileName s.seed n)
        exact ⟨hsame, hremoved, hab.2.trans hbelow⟩) hstart
    have hnext : (s.generate FileTree.storage t).2.1 = s.draw.2 := session_generate _ _ hrun
    constructor
    · exact congrArg (fun answer => some (answer.map some)) hanswer
    · exact congrArg some hsession
    · show Same p base (some (s.generate FileTree.storage t).2.1) _ _
      rw [hnext]
      exact ⟨hdirectory, hseed, hfiles⟩
    · exact ⟨ht, nofun, fun _ => rfl⟩
  · have hrefused : ∀ v, p.act .generate (some s) v =
        (some (.error (.notRunning s.state)), some s, v) := by
      intro v
      show (some ((s.generate FileTree.storage v).1.map some), _, _) = _
      rw [generate_of_not_running _ _ hrun]
      rfl
    rw [hrefused, hrefused]
    exact h.still _

/-- A stop, which does nothing to the files. -/
theorem stop_same {s : Session} (h : Same p base (some s) t u) :
    SameResult p base (some s) t (p.act .stop (some s) t) (p.act .stop (some s) u) := by
  rw [Party.act_stop, Party.act_stop]
  cases hstop : s.stop with
  | error e => exact h.still _
  | ok s' =>
    obtain ⟨hdirectory, hseed, halike⟩ := h
    have hsame : s'.directory = s.directory ∧ s'.seed = s.seed ∧ s'.counter = s.counter := by
      unfold stop transition at hstop
      cases hstate : s.state.advance .stopped with
      | error e =>
        rw [hstate] at hstop
        cases hstop
      | ok state =>
        rw [hstate] at hstop
        cases hstop
        exact ⟨rfl, rfl, rfl⟩
    obtain ⟨hsameDirectory, hsameSeed, hcounter⟩ := hsame
    have hpast : ∀ y, Past s y → Past s' y := by
      rintro y ⟨n, hn, rfl⟩
      exact ⟨n, hcounter ▸ hn, by rw [hsameSeed]⟩
    exact ⟨rfl, rfl, ⟨hsameDirectory.trans hdirectory, hsameSeed.trans hseed, halike.mono hpast⟩,
      ⟨.refl _ t, nofun, fun _ => rfl⟩⟩

/-- **A request on two trees that are alike for its party.**  The answers are the same, the trees
are alike afterwards, and the one is not changed but below the directory of the party. -/
theorem act_same (request : Request) (ht : Rooted root base t) (hu : Rooted root base u)
    (hroot : p.config.outputRoot = root) (h : Same p base session t u) :
    SameResult p base session t (p.act request session t) (p.act request session u) := by
  cases request with
  | start => exact start_same ht hu hroot h
  | generate =>
    cases session with
    | none => exact h.still none
    | some s => exact generate_same h
  | stop =>
    cases session with
    | none => exact h.still none
    | some s => exact stop_same h

end

/-! ## before the root is there -/

section
variable {p : Party} {root : Path} {base : List Name} {t tr : FileTree}

/-- A first request that meets no fault of the files does nothing, or it finds or makes the root. -/
theorem rooted_of_act {request : Request} (habsent : t.exists? p.directory = false)
    (hroot : p.config.outputRoot = root)
    (hio : ∀ path cause, (p.act request none t).1 ≠ some (.error (.io path cause))) :
    (p.act request none t).2 = (none, t) ∨
      ∃ tr base, t.makeDirs root = (.ok (), tr) ∧ Rooted root base tr := by
  subst hroot
  cases request with
  | generate => exact .inl rfl
  | stop => exact .inl rfl
  | start =>
    cases hfit : validate p.config with
    | error fault =>
      left
      rw [Party.act_start_error (start_of_unfit hfit)]
    | ok retention =>
      right
      refine rooted_of_claim habsent rfl (isFileName_seed p.config.seed) rfl
        fun path cause hfault => hio path cause ?_
      obtain ⟨t', hclaim⟩ : ∃ t', claimDirectory p.config.outputRoot (directoryOf p.config) t =
          (.error (.io path cause), t') := ⟨_, Prod.ext hfault rfl⟩
      obtain ⟨answer, hstart, -, herror, -⟩ := start_congr p.grammar hfit hclaim hclaim
      cases herror _ rfl
      rw [Party.act_start_error hstart]

/-- A first request does nothing, or all that it would do after the root has been made. -/
theorem act_of_absent (request : Request) (habsent : t.exists? p.directory = false)
    (hroot : p.config.outputRoot = root) (hmade : t.makeDirs root = (.ok (), tr))
    (hrooted : Rooted root base tr) :
    p.act request none t = p.act request none tr ∨
      p.act request none t = ((p.act request none tr).1, none, t) ∧
        (p.act request none tr).2 = (none, tr) := by
  subst hroot
  cases request with
  | generate => exact .inr ⟨rfl, rfl⟩
  | stop => exact .inr ⟨rfl, rfl⟩
  | start =>
    cases hfit : validate p.config with
    | error fault =>
      right
      rw [Party.act_start_error (start_of_unfit hfit), Party.act_start_error (start_of_unfit hfit)]
      exact ⟨rfl, rfl⟩
    | ok retention =>
      left
      have hclaim := claim_of_absent habsent hmade hrooted rfl (isFileName_seed p.config.seed)
      obtain ⟨r, t', hr⟩ : ∃ r t',
          claimDirectory p.config.outputRoot (directoryOf p.config) tr = (r, t') := ⟨_, _, rfl⟩
      obtain ⟨answer, ht, htr, -⟩ := start_congr p.grammar hfit (hclaim.trans hr) hr
      unfold Party.act
      rw [ht, htr]

end

end PageFuzz.Session
