import PageFuzz.Proofs.Files.Separation
import PageFuzz.Proofs.Session.Retention

/-!
# Claiming a directory

A session makes a directory of its own below the output root, under the name of its seed, and from
then on writes and removes files in it.  What comes of that depends on the tree in few ways: whether
the name is taken, and what the directory holds.

* `isFileName_seed`     the text of a seed is the name of a file;
* `Rooted`              the output root is there;
* `claim_of_rooted`     what comes of a claim below a root that is there;
* `claim_of_absent`     a claim that makes the root first;
* `rooted_of_claim`     a claim that meets no fault finds the root or makes it;
* `start_congr`         two starts after claims that went the same way;
* `generate_congr`      two events on files that answer the same;
* `generate_of_fits`    an event whose file names are short enough meets no fault.
-/

namespace PageFuzz.Session

/-! ## the name of the directory -/

def seedName (seed : Seed) : Name := (Path.ofString seed.text).bytes

theorem seedName_injective {a b : Seed} (h : seedName a = seedName b) : a = b := by
  have htext : a.text = b.text := Path.ofString_injective (congrArg Path.mk h)
  cases a
  cases b
  cases htext
  rfl

/-- A seed is not written with points alone. -/
theorem exists_digit (seed : Seed) : ∃ c ∈ seed.text.toList, c.isDigit = true := by
  have hfirst : ∀ {piece : List Char}, piece ∈ seed.text.toList.splitOnP (· == '.') →
      Text.isDigits piece = true → ∃ c ∈ seed.text.toList, c.isDigit = true := by
    intro piece hpiece hdigits
    rw [Text.isDigits, Bool.and_eq_true, List.all_eq_true] at hdigits
    obtain ⟨c, cs, rfl⟩ : ∃ c cs, piece = c :: cs := by
      cases piece with
      | nil => exact absurd hdigits.1 Bool.false_ne_true
      | cons c cs => exact ⟨c, cs, rfl⟩
    exact ⟨c, Text.mem_of_mem_piece hpiece List.mem_cons_self, hdigits.2 c List.mem_cons_self⟩
  have hseed := seed.isSeed
  unfold isSeedText at hseed
  split at hseed
  · next whole hsplit => exact hfirst (hsplit ▸ List.mem_cons_self) hseed
  · next whole fraction hsplit =>
    rw [Bool.and_eq_true] at hseed
    exact hfirst (hsplit ▸ List.mem_cons_self) hseed.1
  · cases hseed

theorem isFileName_seed (seed : Seed) : Path.IsFileName (seedName seed) := by
  obtain ⟨digit, hmem, hdigit⟩ := exists_digit seed
  refine Path.isFileName_ofString (fun _ hc => val_of_mem_seed hc) ⟨digit, hmem, ?_⟩
  rintro rfl
  exact absurd hdigit (by decide)

/-! ## the output root -/

/-- The output root is there: its path reaches a directory. -/
structure Rooted (root : Path) (base : List Name) (t : FileTree) : Prop where
  reaches : t.Reaches root base
  isDir : root.bytes = [] ∨ t.isDir root = true
  found : ∃ g, t.root.at? base = some g

section
variable {root : Path} {base : List Name} {t t' : FileTree}

theorem Rooted.mono (h : Rooted root base t) (hpass : t.root.Passable t'.root)
    (hhere : t'.here = t.here) : Rooted root base t' := by
  have hreaches := h.reaches.mono hpass hhere
  obtain ⟨g, hg⟩ := h.found
  refine ⟨hreaches, ?_, hpass.at? hg⟩
  rcases h.isDir with hempty | hdir
  · exact .inl hempty
  · obtain ⟨inner, hlook⟩ := FileTree.isDir_iff.mp hdir
    obtain ⟨place, hplace⟩ := FileTree.place_of_look hlook
    obtain ⟨hne, -, hshort⟩ := FileTree.place_eq_ok hplace
    exact .inr (hreaches.isDir hne hshort)

theorem Rooted.makeDirs_eq (h : Rooted root base t) : t.makeDirs root = (.ok (), t) := by
  rcases h.isDir with hempty | hdir
  · obtain rfl : root = ⟨[]⟩ := by
      cases root
      exact congrArg Path.mk hempty
    exact FileTree.makeDirs_empty t
  · exact FileTree.makeDirs_of_isDir hdir

variable {x : Name}

/-- A name below the root that is free: nothing is found there, and a directory can be made. -/
theorem Rooted.free (h : Rooted root base t) (hx : Path.IsFileName x) (hfits : ¬ root.TooLong x)
    (hfree : t.root.node? base x = none) :
    t.exists? (root.join ⟨x⟩) = false ∧
      t.makeDir (root.join ⟨x⟩) = .ok (t.put base x (.dir .nil)) ∧
      FileTree.Site (t.put base x (.dir .nil)) (root.join ⟨x⟩) base x .nil := by
  obtain ⟨links, hplace⟩ := h.reaches.place_join hx
  obtain ⟨g, hg⟩ := h.found
  have hplain : Place.IsPlain x := ⟨hx.ne_dot, hx.ne_up, Nat.not_lt.mp (not_or.mp hfits).2⟩
  have hnone : g.find? x = none := (Folder.node?_eq_none_iff hg).mp hfree
  have hkinds : t.root.kinds base x = some none := by
    rw [Folder.kinds, hg, Option.map_some, hnone]
    rfl
  have hwalk : ∀ ending, t.place ending (root.join ⟨x⟩) = .ok (.entry base x false) := by
    intro ending
    rw [hplace, if_neg hfits, Place.walk_plain hplain, hkinds]
    rfl
  refine ⟨?_, ?_, FileTree.site_put_dir (hwalk .keep) hg hnone⟩
  · have hlook : t.look (root.join ⟨x⟩) = .error .notFound := by
      rw [FileTree.look, hwalk]
      dsimp only
      rw [FileTree.folder, hg, Option.getD_some, hnone]
    rw [FileTree.exists?, hlook]
    rfl
  · unfold FileTree.makeDir FileTree.make
    rw [hwalk]
    dsimp only
    rw [FileTree.folder, hg, Option.getD_some, hnone]

/-- A name below the root that is taken, by whatever it is. -/
theorem Rooted.taken (h : Rooted root base t) (hx : Path.IsFileName x) (hfits : ¬ root.TooLong x)
    {node : Node} (htaken : t.root.node? base x = some node) :
    t.makeDir (root.join ⟨x⟩) = .error .alreadyExists := by
  obtain ⟨links, hplace⟩ := h.reaches.place_join hx
  obtain ⟨g, hg⟩ := h.found
  have hplain : Place.IsPlain x := ⟨hx.ne_dot, hx.ne_up, Nat.not_lt.mp (not_or.mp hfits).2⟩
  rw [Folder.node?_of_at hg] at htaken
  obtain ⟨found, hfound, -⟩ := Option.map_eq_some_iff.mp htaken
  have hkinds : t.root.kinds base x = some (some found.kind) := by
    rw [Folder.kinds, hg, Option.map_some, hfound]
    rfl
  have hwalk : t.place .keep (root.join ⟨x⟩) = .ok (.entry base x false) := by
    rw [hplace, if_neg hfits, Place.walk_plain hplain, hkinds]
    cases found <;> rfl
  unfold FileTree.makeDir FileTree.make
  rw [hwalk]
  dsimp only
  rw [FileTree.folder, hg, Option.getD_some, hfound]

theorem Rooted.tooLong (h : Rooted root base t) (hx : Path.IsFileName x) (hlong : root.TooLong x) :
    t.exists? (root.join ⟨x⟩) = false ∧ t.makeDir (root.join ⟨x⟩) = .error .nameTooLong := by
  obtain ⟨links, hplace⟩ := h.reaches.place_join hx
  have hall : ∀ ending, t.place ending (root.join ⟨x⟩) = .error .nameTooLong := by
    intro ending
    rw [hplace, if_pos hlong]
  constructor
  · have hlook : t.look (root.join ⟨x⟩) = .error .nameTooLong := by rw [FileTree.look, hall]
    rw [FileTree.exists?, hlook]
    rfl
  · unfold FileTree.makeDir FileTree.make
    rw [hall]

/-! ## the claim -/

/-- What comes of a claim below a root that is there. -/
theorem claim_of_rooted (h : Rooted root base t) (hx : Path.IsFileName x) :
    claimDirectory root (root.join ⟨x⟩) t =
      if root.TooLong x then (.error (.io (root.join ⟨x⟩) .nameTooLong), t)
      else if (t.root.node? base x).isSome then
        (.error (.configuration (.directoryExists (root.join ⟨x⟩))), t)
      else (.ok (), t.put base x (.dir .nil)) := by
  unfold claimDirectory
  rw [h.makeDirs_eq]
  dsimp only
  by_cases hlong : root.TooLong x
  · obtain ⟨habsent, hmade⟩ := h.tooLong hx hlong
    rw [if_pos hlong, habsent, hmade, if_neg Bool.false_ne_true]
  · rw [if_neg hlong]
    cases hentry : t.root.node? base x with
    | none =>
      obtain ⟨habsent, hmade, -⟩ := h.free hx hlong hentry
      rw [habsent, hmade, if_neg Bool.false_ne_true]
      rfl
    | some node =>
      have hmade := h.taken hx hlong hentry
      rw [hmade, Option.isSome_some, if_pos rfl]
      split <;> rfl

/-- A claim that makes the root first comes to the same as one after that. -/
theorem claim_of_absent {dir : Path} (habsent : t.exists? dir = false)
    (hmade : t.makeDirs root = (.ok (), t')) (h : Rooted root base t')
    (hdir : dir = root.join ⟨x⟩) (hx : Path.IsFileName x) :
    claimDirectory root dir t = claimDirectory root dir t' := by
  subst hdir
  unfold claimDirectory
  rw [habsent, if_neg Bool.false_ne_true, hmade, h.makeDirs_eq]
  dsimp only
  by_cases hthere : t'.exists? (root.join ⟨x⟩) = true
  · -- something is there only now, so the name is taken
    rw [if_pos hthere]
    by_cases hlong : root.TooLong x
    · rw [(h.tooLong hx hlong).1] at hthere
      cases hthere
    · cases hentry : t'.root.node? base x with
      | none =>
        rw [(h.free hx hlong hentry).1] at hthere
        cases hthere
      | some node => rw [h.taken hx hlong hentry]
  · rw [if_neg hthere]

/-- A claim that meets no fault of the files finds the root or makes it. -/
theorem rooted_of_claim {dir : Path} {r : Except SessionError Unit}
    (habsent : t.exists? dir = false) (hdir : dir = root.join ⟨x⟩) (hx : Path.IsFileName x)
    (hclaim : (claimDirectory root dir t).1 = r) (hio : ∀ path cause, r ≠ .error (.io path cause)) :
    ∃ tr base, t.makeDirs root = (.ok (), tr) ∧ Rooted root base tr := by
  subst hdir
  unfold claimDirectory at hclaim
  rw [habsent, if_neg Bool.false_ne_true] at hclaim
  split at hclaim
  · next cause next hmade => exact absurd hclaim.symm (hio root cause)
  · next tr hmade =>
    obtain ⟨base, hreaches, hisDir⟩ : ∃ base, tr.Reaches root base ∧
        (root.bytes = [] ∨ tr.isDir root = true) := by
      by_cases hne : root.bytes = []
      · obtain rfl : root = ⟨[]⟩ := by
          cases root
          exact congrArg Path.mk hne
        exact ⟨_, tr.reaches_empty, .inl rfl⟩
      · have hthere := FileTree.isDir_of_makeDirs hne hmade
        obtain ⟨base, hreaches⟩ := FileTree.reaches_of_isDir hthere
        exact ⟨base, hreaches, .inr hthere⟩
    refine ⟨tr, base, hmade, hreaches, hisDir, ?_⟩
    cases hfound : tr.root.at? base with
    | some g => exact ⟨g, rfl⟩
    | none =>
      -- in a directory that is gone no directory can be made
      exfalso
      obtain ⟨links, hplace⟩ := hreaches.place_join hx
      obtain ⟨cause, hcause, hother⟩ : ∃ cause,
          tr.makeDir (root.join ⟨x⟩) = .error cause ∧ cause ≠ .alreadyExists := by
        unfold FileTree.makeDir FileTree.make
        rw [hplace]
        by_cases hlong : root.TooLong x
        · rw [if_pos hlong]
          exact ⟨_, rfl, by decide⟩
        · have hplain : Place.IsPlain x :=
            ⟨hx.ne_dot, hx.ne_up, Nat.not_lt.mp (not_or.mp hlong).2⟩
          have hkinds : tr.root.kinds base x = none := by
            rw [Folder.kinds, hfound]
            rfl
          rw [if_neg hlong, Place.walk_plain hplain, hkinds]
          exact ⟨_, rfl, by decide⟩
      rw [hcause] at hclaim
      cases cause with
      | alreadyExists => exact hother rfl
      | _ => exact hio _ _ hclaim.symm

end

/-! ## two starts -/

section
variable {config : SessionConfig} {t u : FileTree}

/-- Settings that are unfit are found before anything is done. -/
theorem start_of_unfit {grammar : Grammar} {fault : ConfigError}
    (h : validate config = .error fault) :
    start config grammar t = (.error (.configuration fault), t) := by
  rw [start, h]

/-- Two starts with fit settings come to the same, if their claims do. -/
theorem start_congr (grammar : Grammar) {retention : Retention}
    (hfit : validate config = .ok retention) {r : Except SessionError Unit} {t' u' : FileTree}
    (ht : claimDirectory config.outputRoot (directoryOf config) t = (r, t'))
    (hu : claimDirectory config.outputRoot (directoryOf config) u = (r, u')) :
    ∃ answer, start config grammar t = (answer, t') ∧ start config grammar u = (answer, u') ∧
      (∀ e, r = .error e → answer = .error e) ∧ (r = .ok () → ∃ s, answer = .ok s) := by
  have hdir : config.outputRoot.join (.ofString config.seed.text) = directoryOf config := rfl
  rw [start, start, hfit]
  dsimp only
  rw [hdir, ht, hu]
  cases r with
  | error e =>
    refine ⟨.error e, rfl, rfl, fun e' he => ?_, fun he => ?_⟩
    · cases he
      rfl
    · cases he
  | ok =>
    refine ⟨_, rfl, rfl, fun e he => ?_, fun _ => ?_⟩
    · cases he
    · rw [transition, state_skip]
      exact ⟨_, rfl⟩

end

/-! ## events -/

/-- An event writes its page and then removes the one that leaves the window. -/
theorem generate_eq {σ : Type} (store : Storage σ) {s : Session} (files : σ)
    (hrun : s.state = .running) :
    s.generate store files =
      let evicted := evict store s.draw.2 (written store s files).2
      match evicted.1 with
      | .error e => (.error e, s.draw.2, evicted.2)
      | .ok () => ((written store s files).1, s.draw.2, evicted.2) := by
  rw [generate, if_neg (not_not_intro hrun)]
  rfl

/-- Two events of a session, on files that answer the same and go on to do so.  The write is that of
the next number, and only after it something is removed. -/
theorem generate_congr {σ τ : Type} {R Q : σ → τ → Prop} {A : Storage σ} {B : Storage τ}
    {s : Session} (hrun : s.state = .running)
    (hwrite : ∀ a b text, R a b →
      (A.write a (s.artifactPath (s.counter + 1)) text).1 =
          (B.write b (s.artifactPath (s.counter + 1)) text).1 ∧
        Q (A.write a (s.artifactPath (s.counter + 1)) text).2
          (B.write b (s.artifactPath (s.counter + 1)) text).2)
    (hskip : ∀ a b, R a b → Q a b)
    (hremove : ∀ a b n, Q a b →
      (A.remove a (s.artifactPath n)).1 = (B.remove b (s.artifactPath n)).1 ∧
        Q (A.remove a (s.artifactPath n)).2 (B.remove b (s.artifactPath n)).2)
    {a : σ} {b : τ} (h : R a b) :
    (s.generate A a).1 = (s.generate B b).1 ∧ (s.generate A a).2.1 = (s.generate B b).2.1 ∧
      Q (s.generate A a).2.2 (s.generate B b).2.2 := by
  have hwritten : ∀ content, (persist A s.draw.2 a content).1 = (persist B s.draw.2 b content).1 ∧
      Q (persist A s.draw.2 a content).2 (persist B s.draw.2 b content).2 := by
    intro content
    obtain ⟨hsame, hfiles⟩ := hwrite a b content h
    have hpath : s.draw.2.artifactPath s.draw.2.counter = s.artifactPath (s.counter + 1) := rfl
    unfold persist
    rw [hpath]
    dsimp only
    generalize A.write a _ content = wa at hsame hfiles
    generalize B.write b _ content = wb at hsame hfiles
    obtain ⟨r, a'⟩ := wa
    obtain ⟨_, b'⟩ := wb
    cases hsame
    cases r <;> exact ⟨rfl, hfiles⟩
  have hevicted : ∀ a b, Q a b → (evict A s.draw.2 a).1 = (evict B s.draw.2 b).1 ∧
      Q (evict A s.draw.2 a).2 (evict B s.draw.2 b).2 := by
    intro a b hab
    unfold evict
    split
    · exact ⟨rfl, hab⟩
    · next n _ =>
      obtain ⟨hsame, hfiles⟩ := hremove a b n hab
      have hpath : s.draw.2.artifactPath n = s.artifactPath n := rfl
      rw [hpath]
      dsimp only
      generalize A.remove a _ = wa at hsame hfiles
      generalize B.remove b _ = wb at hsame hfiles
      obtain ⟨r, a'⟩ := wa
      obtain ⟨_, b'⟩ := wb
      cases hsame
      cases r with
      | ok => exact ⟨rfl, hfiles⟩
      | error cause => cases cause <;> exact ⟨rfl, hfiles⟩
  have hfirst : (written A s a).1 = (written B s b).1 ∧ Q (written A s a).2 (written B s b).2 := by
    unfold written
    cases s.draw.1 with
    | error cause => exact ⟨rfl, hskip a b h⟩
    | ok content => exact hwritten content
  obtain ⟨hpage, hfiles⟩ := hfirst
  obtain ⟨hremoval, hlast⟩ := hevicted _ _ hfiles
  rw [generate_eq A a hrun, generate_eq B b hrun]
  dsimp only
  rw [← hremoval, hpage]
  cases (evict A s.draw.2 (written A s a).2).1 <;> exact ⟨rfl, rfl, hlast⟩

section
variable {s : Session} {t : FileTree} {base : List Name} {x : Name} {f : Folder}

/-- A page whose name is new and short enough is written, if it could be derived. -/
theorem written_of_fits (h : FileTree.Site t s.directory base x f) (hf : f.onlyFiles = true)
    (hnew : fileName s.seed (s.counter + 1) ∉ f.names)
    (hfits : ¬ s.directory.TooLong (fileName s.seed (s.counter + 1))) :
    (∀ path cause, (written FileTree.storage s t).1 ≠ .error (.io path cause)) ∧
      ∃ f', FileTree.Site (written FileTree.storage s t).2 s.directory base x f' ∧
        f'.onlyFiles = true := by
  unfold written
  cases s.draw.1 with
  | error cause =>
    refine ⟨fun path cause' he => ?_, f, h, hf⟩
    cases he
  | ok content =>
    have hpath : s.draw.2.artifactPath s.draw.2.counter =
        s.directory.join ⟨fileName s.seed (s.counter + 1)⟩ := rfl
    obtain ⟨t', f', hwrite, hsite, hfiles, -⟩ := h.write hf (isFileName s.seed _) hnew content
    rw [if_neg hfits] at hwrite
    dsimp only
    rw [persist, hpath, hwrite]
    refine ⟨fun path cause he => ?_, f', hsite, hfiles⟩
    cases he

/-- A page whose name is short enough is removed, or it was not there. -/
theorem evict_of_fits (h : FileTree.Site t s.directory base x f) (hf : f.onlyFiles = true)
    (hfits : ∀ n ≤ s.counter, ¬ s.directory.TooLong (fileName s.seed n)) :
    (evict FileTree.storage s t).1 = .ok () := by
  unfold evict
  split
  · rfl
  · next n hn =>
    obtain ⟨-, hcounter⟩ := Retention.evictee_eq_some.mp hn
    have hle : n ≤ s.counter := by omega
    obtain ⟨t', f', hremove, -⟩ := h.remove hf (isFileName s.seed n)
    rw [if_neg (hfits n hle)] at hremove
    dsimp only
    rw [artifactPath_eq, hremove]
    by_cases hmem : fileName s.seed n ∈ f.unmarked.names
    · rw [if_pos hmem]
    · rw [if_neg hmem]

/-- An event meets no fault of the files, if its page is new and the names of its files are short
enough. -/
theorem generate_of_fits (h : FileTree.Site t s.directory base x f) (hf : f.onlyFiles = true)
    (hnew : fileName s.seed (s.counter + 1) ∉ f.names)
    (hfits : ∀ n ≤ s.counter + 1, ¬ s.directory.TooLong (fileName s.seed n)) (path : Path)
    (cause : IoCause) : (s.generate FileTree.storage t).1 ≠ .error (.io path cause) := by
  by_cases hrun : s.state = .running
  · obtain ⟨hpage, f', hsite, hfiles⟩ := written_of_fits h hf hnew (hfits _ (Nat.le_refl _))
    have hevicted : (evict FileTree.storage s.draw.2 (written FileTree.storage s t).2).1 = .ok () :=
      evict_of_fits hsite hfiles hfits
    rw [generate_eq _ _ hrun]
    dsimp only
    rw [hevicted]
    exact hpage path cause
  · rw [generate_of_not_running _ _ hrun]
    intro he
    cases he

end

end PageFuzz.Session
