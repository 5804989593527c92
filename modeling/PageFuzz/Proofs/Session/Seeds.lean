import Mathlib
import PageFuzz.Proofs.Files.Enumeration
import PageFuzz.Proofs.Files.Making
import PageFuzz.Proofs.Session.Claim

/-!
# Seeds in paths and in names

A text is a seed if it is digits, or digits on both sides of one point, and a seed is never written
in another way than it was given.  So it names a directory in the output root and nothing above or
beside it, and what follows the last point but one of a page's name is the number of the page.

* `isSeedText_iff`        the texts that are seeds;
* `Path.IsChild`          a path that names an entry of a directory;
* `Path.isChild_join`     a file name that is joined to a path does;
* `IsChild.not_above`     such a path is neither the directory nor one above it;
* `append_point_inj`      the last point of a text cuts it in one way;
* `fileName_decodes`      the name of a page tells its seed and its number;
* `seed_faithful`         all of this, for every session.
-/

namespace PageFuzz

/-! ## the texts of seeds -/

/-- one or more of the ten ASCII digits -/
def IsNumeral (ds : List Char) : Prop := ds ≠ [] ∧ ∀ c ∈ ds, '0' ≤ c ∧ c ≤ '9'

/-- digits, or digits on both sides of one point -/
def IsSeedForm (cs : List Char) : Prop :=
  ∃ whole, IsNumeral whole ∧
    (cs = whole ∨ ∃ fraction, IsNumeral fraction ∧ cs = whole ++ '.' :: fraction)

theorem isDigits_iff {ds : List Char} : Text.isDigits ds = true ↔ IsNumeral ds := by
  have hdigit : ∀ c : Char, c.isDigit = true ↔ '0' ≤ c ∧ c ≤ '9' := by
    intro c
    rw [Char.isDigit, Bool.and_eq_true, decide_eq_true_eq, decide_eq_true_eq]
    rfl
  rw [Text.isDigits, Bool.and_eq_true, List.all_eq_true, IsNumeral]
  simp only [hdigit, Bool.not_eq_true', List.isEmpty_eq_false_iff]

theorem IsNumeral.no_point {ds : List Char} (h : IsNumeral ds) {c : Char} (hc : c ∈ ds) :
    (c == '.') = false := by
  rw [beq_eq_false_iff_ne]
  rintro rfl
  exact absurd (h.2 '.' hc).1 (by decide)

theorem isSeedText_iff (cs : List Char) : isSeedText cs = true ↔ IsSeedForm cs := by
  constructor
  · intro h
    have hjoined : ['.'].intercalate (cs.splitOnP (· == '.')) = cs := List.intercalate_splitOn '.'
    unfold isSeedText at h
    split at h
    · next whole hsplit =>
      rw [hsplit, List.intercalate_singleton] at hjoined
      exact ⟨whole, isDigits_iff.mp h, .inl hjoined.symm⟩
    · next whole fraction hsplit =>
      rw [hsplit, List.intercalate_cons_cons, List.intercalate_singleton, List.append_assoc]
        at hjoined
      rw [Bool.and_eq_true] at h
      exact ⟨whole, isDigits_iff.mp h.1, .inr ⟨fraction, isDigits_iff.mp h.2, hjoined.symm⟩⟩
    · cases h
  · rintro ⟨whole, hwhole, rfl | ⟨fraction, hfraction, rfl⟩⟩
    · have hsplit : cs.splitOnP (· == '.') = [cs] :=
        List.splitOnP_eq_singleton fun c hc => hwhole.no_point hc
      rw [isSeedText, hsplit]
      exact isDigits_iff.mpr hwhole
    · have hsplit : (whole ++ '.' :: fraction).splitOnP (· == '.') = [whole, fraction] := by
        rw [List.splitOnP_append_cons whole fraction (by decide),
          List.splitOnP_eq_singleton fun c hc => hwhole.no_point hc,
          List.splitOnP_eq_singleton fun c hc => hfraction.no_point hc]
        rfl
      rw [isSeedText, hsplit]
      exact Bool.and_eq_true_iff.mpr ⟨isDigits_iff.mpr hwhole, isDigits_iff.mpr hfraction⟩

/-- What is read as a seed is kept as it was written. -/
theorem Seed.ofString_cases (s : String) :
    (IsSeedForm s.toList ∧ ∃ seed, Seed.ofString s = .ok seed ∧ seed.text = s) ∨
      (¬ IsSeedForm s.toList ∧ Seed.ofString s = .error (.invalidSeed s)) := by
  by_cases h : isSeedText s.toList = true
  · exact .inl ⟨(isSeedText_iff _).mp h, ⟨s, h⟩, by rw [ofString, dif_pos h], rfl⟩
  · exact .inr ⟨fun hform => h ((isSeedText_iff _).mpr hform), by rw [ofString, dif_neg h]⟩

/-! ## entries of a directory -/

/-- The path `q` names the entry `x` of the directory at `p`: it has one name more, which is the
name of a file, and whatever reaches the directory finds that entry at `q`. -/
structure Path.IsChild (q p : Path) (x : Name) : Prop where
  isFileName : IsFileName x
  isAbsolute_eq : q.isAbsolute = p.isAbsolute
  parts_eq : q.parts = p.parts ++ [x]
  place_eq : ∀ (t : FileTree) (base : List Name) (place : Place), t.Reaches p base →
    t.place .keep q = .ok place → place = .entry base x false

namespace Path

variable {p q : Path} {x : Name}

theorem parts_join (p : Path) (hx : IsFileName x) :
    (p.join ⟨x⟩).isAbsolute = p.isAbsolute ∧ (p.join ⟨x⟩).parts = p.parts ++ [x] := by
  by_cases hp : p.bytes = []
  · obtain rfl : p = ⟨[]⟩ := by
      cases p
      exact congrArg Path.mk hp
    have hrelative := isAbsolute_of_isFileName hx
    have hjoin : (⟨[]⟩ : Path).join ⟨x⟩ = ⟨x⟩ := by
      rw [join, hrelative]
      rfl
    rw [hjoin]
    refine ⟨hrelative, ?_⟩
    rw [parts, names_of_isFileName hx]
    dsimp only
    rw [hrelative, Bool.and_false, if_neg Bool.false_ne_true]
    rfl
  · have hone : ∀ n ∈ [x], IsFileName n := fun n hn => List.mem_singleton.mp hn ▸ hx
    have hparts : (p.join ⟨x⟩).parts = p.parts ++ [x] := parts_descend hp hone
    exact ⟨isAbsolute_join hp hx, hparts⟩

theorem isChild_join (p : Path) (hx : IsFileName x) : (p.join ⟨x⟩).IsChild p x where
  isFileName := hx
  isAbsolute_eq := (parts_join p hx).1
  parts_eq := (parts_join p hx).2
  place_eq := by
    intro t base place hreach hplace
    obtain ⟨links, hwalk⟩ := hreach.place_join hx
    rw [hwalk] at hplace
    split at hplace
    · cases hplace
    · next hfits =>
      have hplain : Place.IsPlain x := ⟨hx.ne_dot, hx.ne_up, Nat.not_lt.mp (not_or.mp hfits).2⟩
      cases hkinds : t.root.kinds base x with
      | none =>
        rw [Place.walk_plain hplain, hkinds] at hplace
        cases hplace
      | some found =>
        rw [Place.walk_keep hplain hkinds] at hplace
        cases hplace
        rfl

/-- A path that names an entry of a directory is neither that directory nor one above it. -/
theorem IsChild.not_above (h : q.IsChild p x) : q ∉ p :: p.ancestors := by
  have hsteps : q.steps = p.steps ++ [x] := by
    have hkeep : [x].filter (· != [dot]) = [x] :=
      List.filter_cons_of_pos (bne_iff_ne.mpr h.isFileName.ne_dot)
    rw [← filter_parts, h.parts_eq, List.filter_append, filter_parts, hkeep]
  have hlonger : p.steps.length < q.steps.length := by
    rw [hsteps, List.length_append, List.length_singleton]
    exact Nat.lt_succ_self _
  intro hmem
  rcases List.mem_cons.mp hmem with rfl | habove
  · exact absurd hlonger (Nat.lt_irrefl _)
  · obtain ⟨i, -, rfl⟩ := List.mem_map.mp habove
    have hupTo := (p.steps_upTo (p.parts.length - 1 - i)).1
    have hfewer : (p.upTo (p.parts.length - 1 - i)).steps.length ≤ p.steps.length := by
      rw [hupTo, ← filter_parts]
      exact ((List.take_sublist _ _).filter _).length_le
    exact absurd hlonger (Nat.not_lt.mpr hfewer)

end Path

/-! ## names of pages -/

/-- The last point of a text cuts it in one way. -/
theorem append_point_inj {a b c d : List Char} (hb : '.' ∉ b) (hd : '.' ∉ d)
    (h : a ++ '.' :: b = c ++ '.' :: d) : a = c ∧ b = d := by
  have hlast : ∀ {front ending : List Char}, '.' ∉ ending →
      (front ++ '.' :: ending).reverse.takeWhile (· != '.') = ending.reverse := by
    intro front ending hnot
    have hall : ∀ c ∈ ending.reverse, (c != '.') = true := by
      intro c hc
      exact bne_iff_ne.mpr fun he => hnot (he ▸ List.mem_reverse.mp hc)
    rw [List.reverse_append, List.reverse_cons, List.append_assoc,
      List.takeWhile_append_of_pos hall, List.singleton_append,
      List.takeWhile_cons_of_neg (by decide), List.append_nil]
  have hends : b = d := by
    have hcut : (a ++ '.' :: b).reverse.takeWhile (· != '.') = b.reverse := hlast hb
    rw [h, hlast hd] at hcut
    exact (List.reverse_inj.mp hcut).symm
  subst hends
  exact ⟨List.append_cancel_right h, rfl⟩

namespace Session

/-- The name of a page tells its seed and its number. -/
theorem fileName_decodes {a b : Seed} {m n : Nat} (h : fileName a m = fileName b n) :
    a = b ∧ m = n := by
  have hnumber : ∀ k : Nat, '.' ∉ (toString k).toList := by
    intro k hmem
    rw [toList_toString] at hmem
    exact absurd (Nat.isDigit_of_mem_toDigits (Nat.succ_pos 9) (Nat.le_refl 10) hmem) (by decide)
  have htext : a.text ++ "." ++ toString m ++ ".html" = b.text ++ "." ++ toString n ++ ".html" :=
    Path.ofString_injective (congrArg Path.mk h)
  have hfront := congrArg String.toList ((String.append_left_inj _).mp htext)
  rw [String.toList_append, String.toList_append, String.toList_append, String.toList_append,
    List.append_assoc, List.append_assoc] at hfront
  obtain ⟨hseeds, hnumbers⟩ := append_point_inj (hnumber m) (hnumber n) hfront
  refine ⟨seedName_injective (congrArg (fun s => (Path.ofString s).bytes) ?_),
    toString_injective (String.toList_inj.mp hnumbers)⟩
  exact String.toList_inj.mp hseeds

/-- **A seed names its directory, and the pages in it, in one way.**  A text is taken for a seed
just if it is digits, or digits on both sides of one point; the seed is that text, and any other is
refused with it.  The directory of a session is the entry of the output root that has the text of
the seed for its name, so it is neither the root nor above it, and it is absolute only if the root
is.  The session has that directory and that seed when it starts and after any events, and the
path of every page is that of an entry of the directory.  Two pages of the same name have the
same seed and the same number. -/
theorem seed_faithful :
    (∀ s : String,
      (IsSeedForm s.toList → ∃ seed, Seed.ofString s = .ok seed ∧ seed.text = s) ∧
        (¬ IsSeedForm s.toList → Seed.ofString s = .error (.invalidSeed s))) ∧
      (∀ config, (directoryOf config).IsChild config.outputRoot (seedName config.seed) ∧
        directoryOf config ∉ config.outputRoot :: config.outputRoot.ancestors ∧
        (directoryOf config).isAbsolute = config.outputRoot.isAbsolute) ∧
      (∀ config grammar t s t', start config grammar t = (.ok s, t') →
        ∀ (σ : Type) (stores : Nat → Storage σ) (k : Nat) (files : σ) (n : Nat),
          let s' := (events stores k s files).1
          s'.directory = directoryOf config ∧
            (s'.artifactPath n).IsChild (directoryOf config) (fileName config.seed n)) ∧
      ∀ (a b : Seed) (m n : Nat), fileName a m = fileName b n → a = b ∧ m = n := by
  refine ⟨fun s => ?_, fun config => ?_, fun config grammar t s t' h σ stores k files n => ?_,
    fun a b m n h => fileName_decodes h⟩
  · rcases Seed.ofString_cases s with ⟨hform, hok⟩ | ⟨hform, herror⟩
    · exact ⟨fun _ => hok, fun hnot => absurd hform hnot⟩
    · exact ⟨fun hyes => absurd hyes hform, fun _ => herror⟩
  · have hchild : (directoryOf config).IsChild config.outputRoot (seedName config.seed) :=
      Path.isChild_join _ (isFileName_seed config.seed)
    exact ⟨hchild, hchild.not_above, hchild.isAbsolute_eq⟩
  · intro s'
    have hs' : s' = skip k s := session_events stores k files (state_start h)
    obtain ⟨retention, -, -, -, hs⟩ := start_eq_ok h
    have hdirectory : s'.directory = directoryOf config := by
      rw [hs', directory_skip, hs]
      exact directory_skip _ _
    have hseed : s'.seed = config.seed := by
      rw [hs', seed_skip, hs]
      exact seed_skip _ _
    refine ⟨hdirectory, ?_⟩
    rw [artifactPath_eq, hdirectory, hseed]
    exact Path.isChild_join _ (isFileName config.seed n)

/-- A seed with a fraction, a text with two points, and the names of two pages that differ only in
where the seed ends. -/
theorem seed_faithful_of_fraction :
    let seed : Seed := ⟨"12.5", by decide⟩
    let whole : Seed := ⟨"12", by decide⟩
    let config : SessionConfig := { outputRoot := .ofString "out", seed }
    (IsSeedForm "12.5".toList ∧ ∃ read, Seed.ofString "12.5" = .ok read ∧ read.text = "12.5") ∧
      (¬ IsSeedForm "1.2.3".toList ∧ Seed.ofString "1.2.3" = .error (.invalidSeed "1.2.3")) ∧
      (directoryOf config).IsChild (.ofString "out") (seedName seed) ∧
      (∃ s t', start config ⟨[]⟩ (.ofHere []) = (.ok s, t') ∧
        (s.artifactPath 3).IsChild (directoryOf config) (fileName seed 3)) ∧
      fileName seed 3 ≠ fileName whole 53 := by
  intro seed whole config
  obtain ⟨htexts, hdirectories, hsessions, hnames⟩ := seed_faithful
  have hform : IsSeedForm "12.5".toList := (isSeedText_iff _).mp (by decide)
  have hnot : ¬ IsSeedForm "1.2.3".toList := fun h => absurd ((isSeedText_iff _).mpr h) (by decide)
  have hclaim : (claimDirectory config.outputRoot (directoryOf config) (.ofHere [])).1 =
      .ok () := by cbv
  have hfit : validate config = .ok Retention.standard := rfl
  obtain ⟨s, t', h⟩ : ∃ s t', start config ⟨[]⟩ (.ofHere []) = (.ok s, t') :=
    start_of_claim hfit hclaim
  obtain ⟨-, hpage⟩ := hsessions config ⟨[]⟩ _ s t' h FileTree (fun _ => FileTree.storage) 0 t' 3
  refine ⟨⟨hform, (htexts _).1 hform⟩, ⟨hnot, (htexts _).2 hnot⟩, (hdirectories config).1,
    ⟨s, t', h, hpage⟩, fun hsame => ?_⟩
  obtain ⟨-, hnumber⟩ := hnames seed whole 3 53 hsame
  cases hnumber

end Session

end PageFuzz
