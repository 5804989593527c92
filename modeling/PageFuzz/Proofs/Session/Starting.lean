import Mathlib
import PageFuzz.Proofs.Files.Making
import PageFuzz.Proofs.Session.Claim

/-!
# What a start leaves behind

A start that succeeds has made the directory of the session, where nothing was, and the directories
above it that were missing.  A start that finds fault with the settings leaves the files alone, but
for one case: where the output root goes up through a directory that is missing, that directory is
made before the directory of the session turns out to be there.

* `FileTree.nodeAt?`        what stands at a path, a link at its end for itself;
* `nodeAt?_of_madeBy`       what stands at a path stays while directories are made;
* `claim_cases`             all that a claim can come to where nothing was found;
* `claim_of_configuration`  what a claim has done that finds its directory taken;
* `claim_of_ok`             what a claim has done that succeeds;
* `start_or_nothing`        both of them, for a start.
-/

namespace PageFuzz

namespace FileTree

/-- what stands at a path, a link at its end for itself -/
def nodeAt? (t : FileTree) (p : Path) : Option Node :=
  match t.place .keep p with
  | .error _ => none
  | .ok (.dir base) => some (.dir (t.folder base))
  | .ok (.entry base name _) => (t.folder base).find? name

section
variable {t t' : FileTree} {p : Path}

theorem nodeAt?_of_kinds {base : List Name} {name : Name} {asDir : Bool} {k : Kind}
    (hplace : t.place .keep p = .ok (.entry base name asDir))
    (hk : t.root.kinds base name = some (some k)) : t.nodeAt? p ≠ none := by
  obtain ⟨g, node, hg, hnode, -⟩ := find?_of_kinds hk
  rw [nodeAt?, hplace]
  dsimp only
  rw [folder, hg, Option.getD_some, hnode]
  exact Option.some_ne_none node

/-- What stands at a path stays while directories are made. -/
theorem nodeAt?_of_madeBy {ps : List Path} (hmade : MadeBy ps t t') (h : t.nodeAt? p ≠ none) :
    t'.nodeAt? p ≠ none := by
  unfold nodeAt? at h
  split at h
  · exact absurd rfl h
  · next base hplace =>
    -- the path reaches a directory, and so it does when there are more of them
    obtain ⟨hne, hzero, hshort⟩ := place_eq_ok hplace
    rw [place_of_short hne hzero hshort] at hplace
    obtain ⟨links, htrail⟩ := Place.trail_of_walk hplace
    have hreach : t'.Reaches p base :=
      Reaches.mono ⟨hzero, links, htrail⟩ hmade.passable hmade.here_eq
    rcases hreach.place_eq hne hshort .keep with hdir | ⟨b, n, d, hnode, ⟨hk, -⟩ | ⟨_, hk, -⟩⟩
    · rw [nodeAt?, hdir]
      exact Option.some_ne_none _
    · exact nodeAt?_of_kinds hnode hk
    · exact nodeAt?_of_kinds hnode hk
  · next base name asDir hplace =>
    -- the walk comes to the same name, and what stood there has stayed
    obtain ⟨hplain, ⟨g, hg⟩, hmove⟩ := route_of_place hplace
    obtain ⟨links, hwalk⟩ := hmove t'.root .keep hmade.passable fun _ hd => hd
    have hplace' : t'.place .keep p = Place.walk t'.root .keep links base asDir [name] := by
      rw [← hwalk, place, place, hmade.here_eq]
    obtain ⟨g', hg'⟩ := hmade.passable.at? hg
    rw [folder, hg, Option.getD_some] at h
    rw [nodeAt?, hplace', Place.walk_keep hplain (Folder.kinds_of_at hg' name)]
    dsimp only
    rw [folder, hg', Option.getD_some]
    rcases hmade.node base name with hsame | ⟨hfree, -, -⟩
    · rw [Folder.node?_of_at hg', Folder.node?_of_at hg] at hsame
      intro hnone
      rw [hnone, Option.map_none, eq_comm, Option.map_eq_none_iff] at hsame
      exact h hsame
    · exact absurd ((Folder.node?_eq_none_iff hg).mp hfree) h

end

end FileTree

namespace Session

section
variable {root : Path} {base : List Name} {t t' : FileTree} {x : Name}

theorem Rooted.nodeAt?_eq (h : Rooted root base t) (hx : Path.IsFileName x)
    (hfits : ¬ root.TooLong x) : t.nodeAt? (root.join ⟨x⟩) = (t.folder base).find? x := by
  obtain ⟨links, hplace⟩ := h.reaches.place_join hx
  obtain ⟨g, hg⟩ := h.found
  have hplain : Place.IsPlain x := ⟨hx.ne_dot, hx.ne_up, Nat.not_lt.mp (not_or.mp hfits).2⟩
  rw [FileTree.nodeAt?, hplace, if_neg hfits, Place.walk_keep hplain (Folder.kinds_of_at hg x)]

/-- A claim that finds nothing at its directory and meets no fault of the files: the root is there
once it has been made, and all depends on what stands at the name in it. -/
theorem claim_cases (hx : Path.IsFileName x) {r : Except SessionError Unit}
    (hthere : t.exists? (root.join ⟨x⟩) = false)
    (h : claimDirectory root (root.join ⟨x⟩) t = (r, t'))
    (hio : ∀ path cause, r ≠ .error (.io path cause)) :
    ∃ tr base g, t.makeDirs root = (.ok (), tr) ∧ Rooted root base tr ∧ ¬ root.TooLong x ∧
      tr.root.at? base = some g ∧
      (g.find? x ≠ none ∧ t' = tr ∧
          r = .error (.configuration (.directoryExists (root.join ⟨x⟩))) ∨
        g.find? x = none ∧ t' = tr.put base x (.dir .nil) ∧
          tr.makeDir (root.join ⟨x⟩) = .ok t' ∧ r = .ok ()) := by
  obtain ⟨tr, base, hmade, hrooted⟩ := rooted_of_claim hthere rfl hx (congrArg Prod.fst h) hio
  obtain ⟨g, hg⟩ := hrooted.found
  rw [claim_of_absent hthere hmade hrooted rfl hx, claim_of_rooted hrooted hx] at h
  split at h
  · cases h
    exact absurd rfl (hio _ _)
  · next hfits =>
    refine ⟨tr, base, g, hmade, hrooted, hfits, hg, ?_⟩
    have hnode := Folder.node?_of_at hg x
    cases hfound : g.find? x with
    | none =>
      rw [hfound, Option.map_none] at hnode
      rw [hnode] at h
      cases h
      exact .inr ⟨rfl, rfl, (hrooted.free hx hfits hnode).2.1, rfl⟩
    | some node =>
      rw [hfound, Option.map_some] at hnode
      rw [hnode] at h
      cases h
      exact .inl ⟨Option.some_ne_none node, rfl, rfl⟩

/-- What a claim leaves that finds its directory taken: the files as they were, unless the root goes
up through a directory that was missing. -/
theorem claim_of_configuration (hx : Path.IsFileName x) {fault : ConfigError}
    (h : claimDirectory root (root.join ⟨x⟩) t = (.error (.configuration fault), t')) :
    fault = .directoryExists (root.join ⟨x⟩) ∧
      (t' = t ∨ [Path.dot, Path.dot] ∈ root.names ∧ t.isDir root = false ∧
        t.exists? (root.join ⟨x⟩) = false ∧ t'.nodeAt? (root.join ⟨x⟩) ≠ none ∧
        FileTree.MadeBy (root :: root.ancestors) t t') := by
  by_cases hthere : t.exists? (root.join ⟨x⟩) = true
  · rw [claimDirectory, if_pos hthere] at h
    cases h
    exact ⟨rfl, .inl rfl⟩
  · rw [Bool.not_eq_true] at hthere
    obtain ⟨tr, base, g, hmade, hrooted, hfits, hg, ⟨hfound, rfl, hfault⟩ | ⟨-, -, -, hr⟩⟩ :=
      claim_cases hx hthere h fun path cause he => by cases he
    · cases hfault
      refine ⟨rfl, ?_⟩
      by_cases hdir : t.isDir root = true
      · rw [FileTree.makeDirs_of_isDir hdir] at hmade
        cases hmade
        exact .inl rfl
      · rw [Bool.not_eq_true] at hdir
        by_cases hup : [Path.dot, Path.dot] ∈ root.names
        · refine .inr ⟨hup, hdir, hthere, ?_, FileTree.madeBy_makeDirs hmade⟩
          rw [hrooted.nodeAt?_eq hx hfits, FileTree.folder, hg]
          exact hfound
        · -- a root that had to be made is empty, and no name in it is taken
          refine (FileTree.makeDirs_or_empty hup hmade).imp_right fun hempty => ?_
          have hdir' : t'.isDir root = true := by rw [FileTree.isDir, hempty, Option.isSome_some]
          rw [hrooted.reaches.folder?_eq hdir', FileTree.folder, hg, Option.some.injEq] at hempty
          have hnil : g = .nil := hempty
          exact absurd (by rw [hnil]; rfl) hfound
    · cases hr

/-- What a claim leaves that succeeds. -/
theorem claim_of_ok (hx : Path.IsFileName x)
    (h : claimDirectory root (root.join ⟨x⟩) t = (.ok (), t')) :
    t.nodeAt? (root.join ⟨x⟩) = none ∧ t'.nodeAt? (root.join ⟨x⟩) = some (.dir .nil) ∧
      FileTree.MadeBy (root.join ⟨x⟩ :: root :: root.ancestors) t t' := by
  have hthere : t.exists? (root.join ⟨x⟩) = false := by
    rw [← Bool.not_eq_true]
    intro hthere
    rw [claimDirectory, if_pos hthere] at h
    cases h
  obtain ⟨tr, base, g, hmade, hrooted, hfits, hg, ⟨-, -, hr⟩ | ⟨hfree, hput, hdir, -⟩⟩ :=
    claim_cases hx hthere h fun path cause he => by cases he
  · cases hr
  · have habove := FileTree.madeBy_makeDirs hmade
    have hlast := FileTree.madeBy_makeDir hdir
    refine ⟨?_, ?_, (habove.mono ?_).trans (hlast.mono ?_)⟩
    · -- what stood at the path would still stand there when the root is made
      by_contra hnode
      refine FileTree.nodeAt?_of_madeBy habove hnode ?_
      rw [hrooted.nodeAt?_eq hx hfits, FileTree.folder, hg]
      exact hfree
    · rw [(hrooted.mono hlast.passable hlast.here_eq).nodeAt?_eq hx hfits, FileTree.folder, hput,
        FileTree.put, Folder.at?_within_self hg]
      exact Folder.find?_put_self x _ g
    · exact List.subset_cons_self _ _
    · exact List.cons_subset_cons _ (List.nil_subset _)

end

/-- Settings that are unfit are so in one of two ways. -/
theorem validate_eq_error {config : SessionConfig} {fault : ConfigError}
    (h : validate config = .error fault) :
    fault = .invalidStartPosition ∨ fault = .zeroRetention := by
  unfold validate Retention.ofWindow at h
  split at h
  · cases h
    exact .inl rfl
  · split at h
    · cases h
    · cases h
      exact .inr rfl

/-- A start that finds fault with the settings leaves the files as they were, unless the output root
goes up through a directory that was missing: then the root is there afterwards, and with it the
directory that is complained of.  A start that succeeds has made its directory where nothing was,
not even a link, and besides that only directories on the way to it. -/
theorem start_or_nothing (config : SessionConfig) (grammar : Grammar) (t t' : FileTree)
    (answer : Except SessionError Session) (h : start config grammar t = (answer, t')) :
    (∀ fault, answer = .error (.configuration fault) →
        fault ∈ [.zeroRetention, .invalidStartPosition, .directoryExists (directoryOf config)] ∧
          (t' = t ∨
            fault = .directoryExists (directoryOf config) ∧
              [Path.dot, Path.dot] ∈ config.outputRoot.names ∧
              t.isDir config.outputRoot = false ∧ t.exists? (directoryOf config) = false ∧
              t'.nodeAt? (directoryOf config) ≠ none ∧
              FileTree.MadeBy (config.outputRoot :: config.outputRoot.ancestors) t t')) ∧
      (∀ s, answer = .ok s →
        t.nodeAt? (directoryOf config) = none ∧
          t'.nodeAt? (directoryOf config) = some (.dir .nil) ∧
          FileTree.MadeBy
            (directoryOf config :: config.outputRoot :: config.outputRoot.ancestors) t t') := by
  have hx := isFileName_seed config.seed
  constructor
  · rintro fault rfl
    cases hfit : validate config with
    | error unfit =>
      rw [start_of_unfit hfit] at h
      cases h
      refine ⟨?_, .inl rfl⟩
      rcases validate_eq_error hfit with rfl | rfl <;> simp
    | ok retention =>
      obtain ⟨r, t₁, hclaim⟩ : ∃ r t₁,
          claimDirectory config.outputRoot (directoryOf config) t = (r, t₁) := ⟨_, _, rfl⟩
      obtain ⟨answer, hstart, -, hfailed, hdone⟩ := start_congr grammar hfit hclaim hclaim
      rw [hstart] at h
      cases h
      cases r with
      | ok =>
        obtain ⟨s, hs⟩ := hdone rfl
        cases hs
      | error e =>
        cases hfailed e rfl
        obtain ⟨rfl, hleft⟩ := claim_of_configuration hx hclaim
        exact ⟨.tail _ (.tail _ (.head _)), hleft.imp_right fun h => ⟨rfl, h⟩⟩
  · rintro s rfl
    obtain ⟨-, -, -, hclaim, -⟩ := start_eq_ok h
    exact claim_of_ok hx hclaim

/-- A root with two directories that are missing, and one that goes up again through a directory
that is missing to where the name of the session is taken. -/
theorem start_or_nothing_of_missing :
    let seed : Seed := ⟨"1", by decide⟩
    let down : SessionConfig := { outputRoot := .ofString "a/b", seed }
    let up : SessionConfig := { outputRoot := .ofString "m/..", seed }
    let grammar : Grammar := ⟨[(Page.startSymbol, [.literal "x"])]⟩
    let t : FileTree := ⟨.dir [49] .nil .nil, [], 0⟩
    (∃ s t', start down grammar t = (.ok s, t') ∧ t.nodeAt? (.ofString "a/b/1") = none ∧
        t'.nodeAt? (.ofString "a/b/1") = some (.dir .nil) ∧
        FileTree.MadeBy [.ofString "a/b/1", .ofString "a/b", .ofString "a", ⟨[]⟩] t t') ∧
      ∃ t', start up grammar t =
          (.error (.configuration (.directoryExists (.ofString "m/../1"))), t') ∧
        t'.nodeAt? (.ofString "m/../1") ≠ none ∧
        FileTree.MadeBy [.ofString "m/..", .ofString "m", ⟨[]⟩] t t' := by
  intro seed down up grammar t
  constructor
  · have hclaim : (claimDirectory down.outputRoot (directoryOf down) t).1 = .ok () := by cbv
    have hfit : validate down = .ok Retention.standard := rfl
    have hdir : directoryOf down = .ofString "a/b/1" := by cbv
    have habove : down.outputRoot.ancestors = [.ofString "a", ⟨[]⟩] := by cbv
    obtain ⟨s, t', h⟩ : ∃ s t', start down grammar t = (.ok s, t') := start_of_claim hfit hclaim
    obtain ⟨-, hdone⟩ := start_or_nothing down grammar t t' _ h
    obtain ⟨hnone, hnew, hmade⟩ := hdone s rfl
    rw [hdir, habove] at hmade
    rw [hdir] at hnone hnew
    exact ⟨s, t', h, hnone, hnew, hmade⟩
  · have hdir : directoryOf up = .ofString "m/../1" := by cbv
    have habove : up.outputRoot.ancestors = [.ofString "m", ⟨[]⟩] := by cbv
    obtain ⟨t', h, hnew⟩ : ∃ t', start up grammar t =
        (.error (.configuration (.directoryExists (.ofString "m/../1"))), t') ∧
          t'.isDir (.ofString "m") = true := ⟨_, by cbv, by cbv⟩
    obtain ⟨hfaults, -⟩ := start_or_nothing up grammar t t' _ h
    obtain ⟨-, hsame | ⟨-, -, -, -, hthere, hmade⟩⟩ := hfaults _ rfl
    · have hold : t.isDir (.ofString "m") = false := by cbv
      rw [hsame, hold] at hnew
      cases hnew
    · rw [habove] at hmade
      rw [hdir] at hthere
      exact ⟨t', h, hthere, hmade⟩

/-- The fault is told of, and yet a directory has been made. -/
theorem start_makes_missing :
    let config : SessionConfig := { outputRoot := .ofString "m/..", seed := ⟨"1", by decide⟩ }
    let grammar : Grammar := ⟨[(Page.startSymbol, [.literal "x"])]⟩
    let t : FileTree := ⟨.dir [49] .nil .nil, [], 0⟩
    ∃ t', start config grammar t =
        (.error (.configuration (.directoryExists (.ofString "m/../1"))), t') ∧
      t.exists? (.ofString "m") = false ∧ t'.isDir (.ofString "m") = true ∧ t' ≠ t := by
  intro config grammar t
  obtain ⟨t', h, hold, hnew⟩ : ∃ t', start config grammar t =
      (.error (.configuration (.directoryExists (.ofString "m/../1"))), t') ∧
        t.exists? (.ofString "m") = false ∧ t'.isDir (.ofString "m") = true :=
    ⟨_, by cbv, by cbv, by cbv⟩
  refine ⟨t', h, hold, hnew, ?_⟩
  rintro rfl
  rw [FileTree.exists_of_isDir hnew] at hold
  cases hold

end Session

end PageFuzz
