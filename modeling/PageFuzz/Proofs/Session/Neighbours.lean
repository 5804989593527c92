import Mathlib
import PageFuzz.Proofs.Session.Parties

/-!
# Sessions under one output root

Several parties run sessions with seeds of their own under one output root, and their requests come
in any order.  Each of them finds what it would have found alone: a session works in the directory
of its seed, and no other session comes there.

* `World.run`        the requests of all parties, one after another;
* `Grown`            what holds of the tree as long as no one else writes to it;
* `Abreast`          a run of all parties beside a run of one of them;
* `run_alone`        every party has what it would have had alone, and nothing else is touched.
-/

namespace PageFuzz.Session

/-! ## a run of all parties -/

/-- the sessions of all parties and the files that they share -/
structure World (ι : Type) where
  sessions : ι → Option Session
  files : FileTree

namespace World

variable {ι : Type}

/-- before any request -/
def fresh (t : FileTree) : World ι := ⟨fun _ => none, t⟩

variable [DecidableEq ι] (parties : ι → Party)

def step (w : World ι) (e : ι × Request) : Answer × World ι :=
  let r := (parties e.1).act e.2 (w.sessions e.1) w.files
  (r.1, ⟨Function.update w.sessions e.1 r.2.1, r.2.2⟩)

theorem step_eq {w : World ι} {i : ι} {session : Option Session} (h : w.sessions i = session)
    (request : Request) :
    w.step parties (i, request) =
      (((parties i).act request session w.files).1,
        ⟨Function.update w.sessions i ((parties i).act request session w.files).2.1,
          ((parties i).act request session w.files).2.2⟩) := by
  subst h
  rfl

/-- all answers, each with the party that has asked, and the world after the last of them -/
def run : List (ι × Request) → World ι → List (ι × Answer) × World ι
  | [], w => ([], w)
  | e :: es, w =>
    let now := w.step parties e
    let later := run es now.2
    ((e.1, now.1) :: later.1, later.2)

end World

/-! ## what holds on the way -/

section
variable {ι : Type} {parties : ι → Party} {root : Path} {base : List Name} {t tr : FileTree}

/-- The tree is the one with the root in it and the directories of the sessions that have started,
each of which holds nothing but files. -/
structure Grown (parties : ι → Party) (base : List Name) (tr : FileTree) (w : World ι) : Prop where
  here_eq : w.files.here = tr.here
  passable : tr.root.Passable w.files.root
  node_eq : ∀ b n, (∀ j, (w.sessions j).isSome = true →
      ¬ base ++ [(parties j).name] <+: b ++ [n]) →
    w.files.root.node? b n = tr.root.node? b n
  held : ∀ j, Same (parties j) base (w.sessions j) w.files w.files

theorem grown_fresh (parties : ι → Party) (base : List Name) (tr : FileTree) :
    Grown parties base tr (.fresh tr) :=
  ⟨rfl, .refl tr.root, fun _ _ _ => rfl, fun _ => rfl⟩

theorem Grown.rooted {w : World ι} (h : Grown parties base tr w) (hrooted : Rooted root base tr) :
    Rooted root base w.files :=
  hrooted.mono h.passable h.here_eq

/-- Below one directory there is no other beside it. -/
theorem not_below_of_ne (base : List Name)
    (hnames : Function.Injective fun i => (parties i).name) {i j : ι} (hne : j ≠ i) :
    ¬ base ++ [(parties j).name] <+: base ++ [(parties i).name] := by
  intro hprefix
  have hsame := (List.prefix_append_right_inj base).mp hprefix
  exact hne (hnames (List.cons_prefix_cons.mp hsame).1)

/-- What one party sees is the same after a request of another. -/
theorem Same.apart (hnames : Function.Injective fun i => (parties i).name) {i j : ι} (hne : j ≠ i)
    {session : Option Session} {a a' b b' : FileTree} (h : Same (parties i) base session a b)
    (ha : FileTree.OnlyBelow (base ++ [(parties j).name]) a a')
    (hb : FileTree.OnlyBelow (base ++ [(parties j).name]) b b') :
    Same (parties i) base session a' b' := by
  have hapart := not_below_of_ne base hnames hne
  cases session with
  | none =>
    show a'.root.node? base _ = b'.root.node? base _
    rw [ha.node_eq _ _ hapart, hb.node_eq _ _ hapart]
    exact h
  | some s =>
    obtain ⟨hdirectory, hseed, halike⟩ := h
    exact ⟨hdirectory, hseed, halike.apart (fun he => hne (hnames he.symm)) ha hb⟩

variable [DecidableEq ι]

/-- A request changes the files below the directory of its party only. -/
theorem Grown.below {w : World ι} (h : Grown parties base tr w) (hrooted : Rooted root base tr)
    (hroot : ∀ i, (parties i).config.outputRoot = root) (e : ι × Request) :
    FileTree.OnlyBelow (base ++ [(parties e.1).name]) w.files (w.step parties e).2.files :=
  (act_same e.2 (h.rooted hrooted) (h.rooted hrooted) (hroot e.1) (h.held e.1)).moved.below

/-- A request leaves all other parties what they have. -/
theorem Grown.step {w : World ι} (h : Grown parties base tr w) (hrooted : Rooted root base tr)
    (hroot : ∀ i, (parties i).config.outputRoot = root)
    (hnames : Function.Injective fun i => (parties i).name) (e : ι × Request) :
    Grown parties base tr (w.step parties e).2 := by
  obtain ⟨j, request⟩ := e
  have hthere := h.rooted hrooted
  obtain ⟨-, -, hsame, hmoved⟩ := act_same request hthere hthere (hroot j) (h.held j)
  have hthis : (w.step parties (j, request)).2.sessions j =
      ((parties j).act request (w.sessions j) w.files).2.1 := Function.update_self ..
  have hother : ∀ i, i ≠ j → (w.step parties (j, request)).2.sessions i = w.sessions i :=
    fun i hi => Function.update_of_ne hi ..
  have hbelow := h.below hrooted hroot (j, request)
  constructor
  · exact hbelow.here_eq.trans h.here_eq
  · exact h.passable.trans hbelow.passable
  · intro b n hapart
    have hbefore : ∀ i, (w.sessions i).isSome = true →
        ¬ base ++ [(parties i).name] <+: b ++ [n] := by
      intro i hi
      refine hapart i ?_
      by_cases hij : i = j
      · subst hij
        rw [hthis]
        exact hmoved.kept hi
      · rw [hother i hij]
        exact hi
    rw [← h.node_eq b n hbefore]
    cases hsession : ((parties j).act request (w.sessions j) w.files).2.1 with
    | none =>
      have hstill : (w.step parties (j, request)).2.files = w.files := hmoved.still hsession
      rw [hstill]
    | some s =>
      refine hbelow.node_eq b n (hapart j ?_)
      rw [hthis, hsession]
      rfl
  · intro i
    by_cases hij : i = j
    · subst hij
      rw [hthis]
      exact hsame
    · rw [hother i hij]
      exact (h.held i).apart hnames (Ne.symm hij) hbelow hbelow

/-- the name is neither that of a directory nor below it -/
def Outside (t : FileTree) (dir : Path) (b : List Name) (n : Name) : Prop :=
  ∀ base name asDir, t.place .keep dir = .ok (.entry base name asDir) →
    ¬ base ++ [name] <+: b ++ [n]

/-! ## beside a run of one party -/

/-- The world of all parties and the world of one of them alone: no one has done anything yet, or
the root is there, and the one has what it would have alone. -/
inductive Abreast (parties : ι → Party) (root : Path) (t : FileTree) (i : ι) :
    World ι → World ι → Prop where
  | fresh : Abreast parties root t i (.fresh t) (.fresh t)
  | ahead {tr : FileTree} {base : List Name} {w : World ι} : t.makeDirs root = (.ok (), tr) →
      Rooted root base tr → Grown parties base tr w → w.sessions i = none →
      Abreast parties root t i w (.fresh t)
  | both {tr : FileTree} {base : List Name} {w u : World ι} : t.makeDirs root = (.ok (), tr) →
      Rooted root base tr → Grown parties base tr w → Grown parties base tr u →
      w.sessions i = u.sessions i → Same (parties i) base (w.sessions i) w.files u.files →
      Abreast parties root t i w u

section
variable (hroot : ∀ i, (parties i).config.outputRoot = root)
  (hnames : Function.Injective fun i => (parties i).name)
  (habsent : ∀ i, t.exists? (parties i).directory = false)

theorem step_fresh_eq (parties : ι → Party) (t : FileTree) (e : ι × Request) :
    World.step parties (.fresh t) e =
      (((parties e.1).act e.2 none t).1,
        ⟨Function.update (fun _ => none) e.1 ((parties e.1).act e.2 none t).2.1,
          ((parties e.1).act e.2 none t).2.2⟩) := rfl

/-- A first request that does nothing, or all that it would do once the root is there. -/
theorem step_of_absent (e : ι × Request) (hroot : (parties e.1).config.outputRoot = root)
    (habsent : t.exists? (parties e.1).directory = false) (hmade : t.makeDirs root = (.ok (), tr))
    (hrooted : Rooted root base tr) :
    World.step parties (.fresh t) e = World.step parties (.fresh tr) e ∨
      World.step parties (.fresh t) e = (((parties e.1).act e.2 none tr).1, .fresh t) ∧
        ((parties e.1).act e.2 none tr).2 = (none, tr) := by
  rcases act_of_absent e.2 habsent hroot hmade hrooted with hsame | ⟨hact, hnothing⟩
  · left
    rw [step_fresh_eq, step_fresh_eq, hsame]
  · right
    have hupdate : Function.update (fun _ : ι => (none : Option Session)) e.1 none =
        fun _ => none := Function.update_eq_self e.1 _
    rw [step_fresh_eq, hact, hupdate]
    exact ⟨rfl, hnothing⟩

include hroot hnames habsent

/-- The first request that does anything finds the root or makes it. -/
theorem step_fresh (e : ι × Request)
    (hio : ∀ path cause,
      (World.step parties (.fresh t) e).1 ≠ some (.error (.io path cause))) :
    (World.step parties (.fresh t) e).2 = .fresh t ∨
      ∃ tr base, t.makeDirs root = (.ok (), tr) ∧ Rooted root base tr ∧
        Grown parties base tr (World.step parties (.fresh t) e).2 := by
  rcases rooted_of_act (habsent e.1) (hroot e.1) hio with hnothing | ⟨tr, base, hmade, hrooted⟩
  · left
    have hupdate : Function.update (fun _ : ι => (none : Option Session)) e.1 none =
        fun _ => none := Function.update_eq_self e.1 _
    rw [step_fresh_eq, hnothing, hupdate]
    rfl
  · rcases step_of_absent e (hroot e.1) (habsent e.1) hmade hrooted with hsame | ⟨hnothing, -⟩
    · rw [hsame]
      exact .inr ⟨tr, base, hmade, hrooted,
        (grown_fresh parties base tr).step hrooted hroot hnames e⟩
    · rw [hnothing]
      exact .inl rfl

/-- A request of the one party comes to the same in both worlds. -/
theorem Abreast.own {i : ι} {w u : World ι} (h : Abreast parties root t i w u) (request : Request)
    (hio : ∀ path cause,
      (w.step parties (i, request)).1 ≠ some (.error (.io path cause))) :
    (w.step parties (i, request)).1 = (u.step parties (i, request)).1 ∧
      Abreast parties root t i (w.step parties (i, request)).2
        (u.step parties (i, request)).2 := by
  cases h with
  | fresh =>
    refine ⟨rfl, ?_⟩
    rcases step_fresh hroot hnames habsent (i, request) hio with hsame | ⟨tr, base, hmade, hr, hg⟩
    · rw [hsame]
      exact .fresh
    · exact .both hmade hr hg hg rfl (hg.held i)
  | @ahead tr base _ hmade hr hg hnone =>
    -- the name of the directory is as free as when the root was made
    have hsees : Same (parties i) base none w.files tr := by
      refine hg.node_eq base (parties i).name fun j hj => not_below_of_ne base hnames ?_
      intro hji
      rw [hji, hnone] at hj
      cases hj
    have hboth := act_same request (hg.rooted hr) hr (hroot i) hsees
    have hg' := hg.step hr hroot hnames (i, request)
    rw [World.step_eq parties hnone] at hg' ⊢
    rcases step_of_absent (i, request) (hroot i) (habsent i) hmade hr with hsame | ⟨hstep, hnothing⟩
    · have hu := (grown_fresh parties base tr).step hr hroot hnames (i, request)
      rw [hsame, step_fresh_eq]
      refine ⟨hboth.answer_eq, .both hmade hr hg' hu ?_ ?_⟩
      · dsimp only
        rw [Function.update_self, Function.update_self, hboth.session_eq]
      · dsimp only
        rw [Function.update_self]
        exact hboth.same
    · rw [hstep]
      refine ⟨hboth.answer_eq, .ahead hmade hr hg' ?_⟩
      dsimp only
      rw [Function.update_self, hboth.session_eq, hnothing]
  | @both tr base _ _ hmade hr hg hu hsessions hsees =>
    have hboth := act_same request (hg.rooted hr) (hu.rooted hr) (hroot i) hsees
    have hg' := hg.step hr hroot hnames (i, request)
    have hu' := hu.step hr hroot hnames (i, request)
    rw [World.step_eq parties rfl] at hg' ⊢
    rw [World.step_eq parties hsessions.symm] at hu' ⊢
    refine ⟨hboth.answer_eq, .both hmade hr hg' hu' ?_ ?_⟩
    · dsimp only
      rw [Function.update_self, Function.update_self, hboth.session_eq]
    · dsimp only
      rw [Function.update_self]
      exact hboth.same

/-- A request of another party is not seen by the one. -/
theorem Abreast.other {i : ι} {w u : World ι} (h : Abreast parties root t i w u) {e : ι × Request}
    (he : e.1 ≠ i)
    (hio : ∀ path cause, (w.step parties e).1 ≠ some (.error (.io path cause))) :
    Abreast parties root t i (w.step parties e).2 u := by
  have hkept : (w.step parties e).2.sessions i = w.sessions i :=
    Function.update_of_ne (Ne.symm he) ..
  cases h with
  | fresh =>
    rcases step_fresh hroot hnames habsent e hio with hsame | ⟨tr, base, hmade, hr, hg⟩
    · rw [hsame]
      exact .fresh
    · exact .ahead hmade hr hg hkept
  | ahead hmade hr hg hnone =>
    exact .ahead hmade hr (hg.step hr hroot hnames e) (hkept.trans hnone)
  | both hmade hr hg hu hsessions hsees =>
    refine .both hmade hr (hg.step hr hroot hnames e) hu (hkept.trans hsessions) ?_
    rw [hkept]
    exact hsees.apart hnames he (hg.below hr hroot e) (.refl _ _)

/-- The requests of all parties beside those of the one. -/
theorem Abreast.run {i : ι} (es : List (ι × Request)) {w u : World ι}
    (h : Abreast parties root t i w u)
    (hio : ∀ a ∈ (w.run parties es).1, ∀ path cause, a.2 ≠ some (.error (.io path cause))) :
    (w.run parties es).1.filter (fun a => a.1 = i) =
        (u.run parties (es.filter fun e => e.1 = i)).1 ∧
      Abreast parties root t i (w.run parties es).2
        (u.run parties (es.filter fun e => e.1 = i)).2 := by
  induction es generalizing w u with
  | nil => exact ⟨rfl, h⟩
  | cons e es ih =>
    have hnow : ∀ path cause, (w.step parties e).1 ≠ some (.error (.io path cause)) :=
      hio (e.1, _) List.mem_cons_self
    have hlater : ∀ a ∈ ((w.step parties e).2.run parties es).1, ∀ path cause,
        a.2 ≠ some (.error (.io path cause)) := fun a ha => hio a (List.mem_cons_of_mem _ ha)
    obtain ⟨j, request⟩ := e
    by_cases hj : j = i
    · subst hj
      obtain ⟨hanswer, hnext⟩ := h.own hroot hnames habsent request hnow
      obtain ⟨hanswers, hend⟩ := ih hnext hlater
      rw [List.filter_cons_of_pos (by simp)]
      refine ⟨?_, hend⟩
      show List.filter _ ((j, _) :: _) = (j, _) :: _
      rw [List.filter_cons_of_pos (by simp), hanswers, hanswer]
    · obtain ⟨hanswers, hend⟩ := ih (h.other hroot hnames habsent hj hnow) hlater
      rw [List.filter_cons_of_neg (by simpa using hj)]
      refine ⟨?_, hend⟩
      show List.filter _ ((j, _) :: _) = _
      rw [List.filter_cons_of_neg (by simpa using hj), hanswers]

end

omit [DecidableEq ι] in
theorem Abreast.session_eq {i : ι} {w u : World ι} (h : Abreast parties root t i w u) :
    w.sessions i = u.sessions i := by
  cases h with
  | fresh => rfl
  | ahead _ _ _ hnone => exact hnone
  | both _ _ _ _ hsessions _ => exact hsessions

omit [DecidableEq ι] in
/-- The directory of a session holds in both worlds the same files. -/
theorem Abreast.unmarked_eq {i : ι} {w u : World ι} (h : Abreast parties root t i w u) {s : Session}
    (hs : w.sessions i = some s) : ∃ f g, w.files.folder? s.directory = some f ∧
      u.files.folder? s.directory = some g ∧ f.unmarked = g.unmarked := by
  cases h with
  | fresh => cases hs
  | ahead _ _ _ hnone =>
    rw [hnone] at hs
    cases hs
  | both _ _ _ _ _ hsees =>
    rw [hs] at hsees
    obtain ⟨hdirectory, -, f, g, hf, hg, -, -, hsame, -⟩ := hsees
    rw [hdirectory]
    exact ⟨f, g, hf.folder?_eq, hg.folder?_eq, hsame⟩

omit [DecidableEq ι] in
theorem Abreast.grown {i : ι} {w u : World ι} (h : Abreast parties root t i w u) :
    w = .fresh t ∨ ∃ tr base, t.makeDirs root = (.ok (), tr) ∧ Grown parties base tr w := by
  cases h with
  | fresh => exact .inl rfl
  | ahead hmade _ hg _ => exact .inr ⟨_, _, hmade, hg⟩
  | both hmade _ hg _ _ _ => exact .inr ⟨_, _, hmade, hg⟩

/-! ## what is outside, and a further start -/

omit [DecidableEq ι] in
/-- Outside the directories of the sessions only the root has been made, and what was missing above
it. -/
theorem Grown.outside {w : World ι} (h : Grown parties base tr w)
    (hmade : t.makeDirs root = (.ok (), tr)) {b : List Name} {n : Name}
    (hapart : ∀ i s, w.sessions i = some s → Outside w.files s.directory b n) :
    w.files.root.node? b n = t.root.node? b n ∨
      t.root.node? b n = none ∧ w.files.root.node? b n = some (.dir .nil) ∧
        ∃ p ∈ root :: root.ancestors, ∃ asDir, w.files.place .keep p = .ok (.entry b n asDir) := by
  have hroots := FileTree.madeBy_makeDirs hmade
  have hsame : w.files.root.node? b n = tr.root.node? b n := by
    refine h.node_eq b n fun i hi => ?_
    obtain ⟨s, hs⟩ := Option.isSome_iff_exists.mp hi
    have hheld := h.held i
    rw [hs] at hheld
    obtain ⟨hdirectory, -, f, -, hsite, -⟩ := hheld
    obtain ⟨asDir, hplace⟩ := hsite.place_eq .keep
    exact hapart i s hs base _ asDir (hdirectory ▸ hplace)
  rcases hroots.node b n with hbefore | ⟨hfree, hdir, p, hp, f, hsite⟩
  · exact .inl (hsame.trans hbefore)
  · obtain ⟨f', hsite'⟩ := hsite.there h.passable h.here_eq
    obtain ⟨asDir, hplace⟩ := hsite'.place_eq .keep
    exact .inr ⟨hfree, hsame.trans hdir, p, hp, asDir, hplace⟩

omit [DecidableEq ι] in
/-- The directory of a session that has started is taken. -/
theorem Grown.start_again {w : World ι} (h : Grown parties base tr w) {i : ι} {s : Session}
    (hs : w.sessions i = some s) {config : SessionConfig} {grammar : Grammar}
    {retention : Retention} (hdir : directoryOf config = (parties i).directory)
    (hfit : validate config = .ok retention) :
    start config grammar w.files =
      (.error (.configuration (.directoryExists s.directory)), w.files) := by
  have hheld := h.held i
  rw [hs] at hheld
  obtain ⟨hdirectory, -, f, -, hsite, -⟩ := hheld
  have hthere : w.files.exists? (directoryOf config) = true := by
    refine FileTree.exists_of_isDir ?_
    rw [FileTree.isDir, hdir, hsite.folder?_eq]
    rfl
  have hclaim : claimDirectory config.outputRoot (directoryOf config) w.files =
      (.error (.configuration (.directoryExists (directoryOf config))), w.files) := by
    rw [claimDirectory, if_pos hthere]
  obtain ⟨answer, hstart, -, herror, -⟩ := start_congr grammar hfit hclaim hclaim
  cases herror _ rfl
  rw [hstart, hdir, hdirectory]

end

/-- **Sessions under one output root do not touch each other.**  Parties with seeds of their own
share an output root, in which none of their directories is there at first, and no operation on the
files fails.  Then after any requests in any order every party has had the answers, and has the
session and the files in its directory, that it would have with its own requests alone.  Outside
the directories of the sessions all entries are as they were, but for the root and the directories
above it, which are made where they were missing.  A further start with the seed of a session finds
its directory taken, and changes nothing. -/
theorem run_alone {ι : Type} [DecidableEq ι] {parties : ι → Party} {root : Path} {t : FileTree}
    (hroot : ∀ i, (parties i).config.outputRoot = root)
    (hseeds : Function.Injective fun i => (parties i).config.seed)
    (habsent : ∀ i, t.exists? (parties i).directory = false) (requests : List (ι × Request))
    (hio : ∀ a ∈ ((World.fresh t).run parties requests).1, ∀ path cause,
      a.2 ≠ some (.error (.io path cause))) :
    let together := (World.fresh t).run parties requests
    let files := together.2.files
    (∀ i,
      let alone := (World.fresh t).run parties (requests.filter fun e => e.1 = i)
      together.1.filter (fun a => a.1 = i) = alone.1 ∧
      together.2.sessions i = alone.2.sessions i ∧
      ∀ s, together.2.sessions i = some s → ∃ f g, files.folder? s.directory = some f ∧
        alone.2.files.folder? s.directory = some g ∧ f.unmarked = g.unmarked) ∧
    (∀ b n, (∀ i s, together.2.sessions i = some s → Outside files s.directory b n) →
      files.root.node? b n = t.root.node? b n ∨
        t.root.node? b n = none ∧ files.root.node? b n = some (.dir .nil) ∧
          ∃ p ∈ root :: root.ancestors, ∃ asDir, files.place .keep p = .ok (.entry b n asDir)) ∧
    ∀ i s, together.2.sessions i = some s → ∀ config grammar retention,
      config.outputRoot = root → config.seed = (parties i).config.seed →
      validate config = .ok retention →
      start config grammar files =
        (.error (.configuration (.directoryExists s.directory)), files) := by
  intro together files
  have hnames : Function.Injective fun i => (parties i).name := fun i j hij =>
    hseeds (seedName_injective hij)
  have hrun := fun i => Abreast.run hroot hnames habsent (i := i) requests .fresh hio
  have hend : together.2 = .fresh t ∨ ∃ tr base, t.makeDirs root = (.ok (), tr) ∧
      Grown parties base tr together.2 := by
    cases requests with
    | nil => exact .inl rfl
    | cons e es => exact (hrun e.1).2.grown
  refine ⟨fun i => ?_, fun b n hapart => ?_,
    fun i s hs config grammar retention hr hseed hfit => ?_⟩
  · obtain ⟨hanswers, habreast⟩ := hrun i
    exact ⟨hanswers, habreast.session_eq, fun s hs => habreast.unmarked_eq hs⟩
  · rcases hend with hfresh | ⟨tr, base, hmade, hg⟩
    · left
      show together.2.files.root.node? b n = _
      rw [hfresh]
      rfl
    · exact hg.outside hmade hapart
  · rcases hend with hfresh | ⟨tr, base, -, hg⟩
    · rw [hfresh] at hs
      cases hs
    · have hdir : directoryOf config = (parties i).directory := by
        rw [Party.directory, directoryOf, directoryOf, hr, hseed, hroot i]
      exact hg.start_again hs hdir hfit

/-- Two sessions below a root that is not there yet. -/
theorem run_alone_of_two :
    let config : Seed → SessionConfig := fun seed =>
      { outputRoot := .ofString "out", seed := seed, startSymbol := "p" }
    let parties : Bool → Party := fun b =>
      ⟨config (if b then ⟨"2", by decide⟩ else ⟨"1", by decide⟩), ⟨[("p", [.literal "a"])]⟩⟩
    let run := fun requests : List (Bool × Request) =>
      (World.fresh (.ofHere [])).run parties requests
    let together := run [(false, .start), (true, .start), (false, .generate), (true, .stop)]
    let alone := run [(false, .start), (false, .generate)]
    ∃ s f g, together.2.sessions false = some s ∧ alone.2.sessions false = some s ∧
      together.2.files.folder? s.directory = some f ∧
      alone.2.files.folder? s.directory = some g ∧ f.unmarked = g.unmarked := by
  intro config parties run together alone
  have hclaims : ∃ t, claimDirectory (.ofString "out") (directoryOf (parties false).config)
      (.ofHere []) = (.ok (), t) ∧
      ∃ t', claimDirectory (.ofString "out") (directoryOf (parties true).config) t = (.ok (), t') ∧
        t'.Holds (parties false).directory .nil :=
    ⟨_, by cbv, _, by cbv, _, _, _, by cbv, by cbv⟩
  obtain ⟨t, hfirst, t', hsecond, hholds⟩ := hclaims
  obtain ⟨s, u, hs⟩ : ∃ s u,
      start (parties false).config (parties false).grammar (.ofHere []) = (.ok s, u) :=
    start_of_claim rfl (congrArg Prod.fst hfirst)
  obtain ⟨s₂, u₂, hs₂⟩ : ∃ s u,
      start (parties true).config (parties true).grammar t = (.ok s, u) :=
    start_of_claim rfl (congrArg Prod.fst hsecond)
  obtain rfl : u = t := by
    obtain ⟨-, -, -, hclaim, -⟩ := start_eq_ok hs
    exact congrArg Prod.snd (hclaim.symm.trans hfirst)
  obtain rfl : u₂ = t' := by
    obtain ⟨-, -, -, hclaim, -⟩ := start_eq_ok hs₂
    exact congrArg Prod.snd (hclaim.symm.trans hsecond)
  have hdirectory : s.directory = (parties false).directory := by
    obtain ⟨-, -, -, -, rfl⟩ := start_eq_ok hs
    rfl
  have hseed : s.seed = (parties false).config.seed := (onCourse_start hs).seed_eq
  have hcounter : s.counter + 1 = 1 := counter_start hs
  have hstop : s₂.stop = .ok { s₂ with state := .stopped } := by
    rw [stop, transition, state_start hs₂]
    rfl
  have hevent : (parties false).act .generate (some s) u₂ =
      (some ((s.generate FileTree.storage u₂).1.map some),
        some (s.generate FileTree.storage u₂).2.1, (s.generate FileTree.storage u₂).2.2) := rfl
  have htogether : together = ([(false, some (.ok none)), (true, some (.ok none)),
      (false, some ((s.generate FileTree.storage u₂).1.map some)), (true, some (.ok none))],
      together.2) ∧ together.2.sessions false = some (s.generate FileTree.storage u₂).2.1 := by
    simp [together, run, World.run, World.step, World.fresh, Party.act_start_ok hs,
      Party.act_start_ok hs₂, Party.act_stop, hstop, hevent]
  obtain ⟨hanswers, hsession⟩ := htogether
  have hio : ∀ a ∈ together.1, ∀ path cause, a.2 ≠ some (.error (.io path cause)) := by
    intro a ha path cause heq
    rw [hanswers] at ha
    simp only [List.mem_cons, List.not_mem_nil, or_false] at ha
    rcases ha with rfl | rfl | rfl | rfl
    · cases heq
    · cases heq
    · obtain ⟨base, name, hsite⟩ := hholds.site
      have hfits : ∀ n ≤ s.counter + 1, ¬ s.directory.TooLong (fileName s.seed n) := by
        rw [hcounter, hdirectory, hseed]
        intro n hn
        refine of_decide_eq_true ?_
        interval_cases n <;> cbv
      have hfault := generate_of_fits (hdirectory ▸ hsite) rfl List.not_mem_nil hfits path cause
      have hsaid : (s.generate FileTree.storage u₂).1.map some = .error (.io path cause) :=
        Option.some.inj heq
      cases hpage : (s.generate FileTree.storage u₂).1 with
      | ok page =>
        rw [hpage] at hsaid
        cases hsaid
      | error fault =>
        rw [hpage] at hsaid hfault
        cases hsaid
        exact hfault rfl
    · cases heq
  have hseeds : Function.Injective fun b => (parties b).config.seed := by
    intro a b hab
    cases a <;> cases b
    · rfl
    · exact absurd hab (by decide)
    · exact absurd hab (by decide)
    · rfl
  have habsent : ∀ b, FileTree.exists? (.ofHere []) (parties b).directory = false := by
    intro b
    cases b <;> cbv
  have hroot : ∀ b, (parties b).config.outputRoot = .ofString "out" := fun _ => rfl
  have halone := (run_alone hroot hseeds habsent
    [(false, .start), (true, .start), (false, .generate), (true, .stop)] hio).1 false
  have hown : List.filter (fun e : Bool × Request => e.1 = false)
      [(false, .start), (true, .start), (false, .generate), (true, .stop)] =
      [(false, .start), (false, .generate)] := rfl
  rw [hown] at halone
  obtain ⟨-, hsame, hfiles⟩ := halone
  obtain ⟨f, g, hf, hg, hmarks⟩ := hfiles _ hsession
  exact ⟨_, f, g, hsession, hsame.symm.trans hsession, hf, hg, hmarks⟩

end PageFuzz.Session
