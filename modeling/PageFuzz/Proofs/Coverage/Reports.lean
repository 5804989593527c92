import Mathlib
import PageFuzz.Coverage.Scanner
import PageFuzz.Proofs.Coverage.Observation

/-!
# Reports of several corpora

What a report counts are sets, so the report of two corpora together is known from the report of
each, and a report says nothing about the order of the pages or their names.

* `Kind`                          the three lists of a vocabulary, and what is compared with each;
* `mem_missing_report`            a name is missing when it is in none of the pages;
* `Report.Counts`                 the numbers of a report are those of the sets they stand for;
* `Scanner.scan_of_isDir`         a scanner reports on what the pages of a directory hold;
* `Scanner.scan_eq_of_contents`   so equal contents are reported alike.
-/

namespace PageFuzz.Coverage

/-! ## the three categories -/

/-- the lists of a vocabulary -/
inductive Kind where
  | html5Tags
  | obsoleteTags
  | attributes

def Vocabulary.list (v : Vocabulary) : Kind → List String
  | .html5Tags => v.html5Tags
  | .obsoleteTags => v.obsoleteTags
  | .attributes => v.attributes

def Report.category (r : Report) : Kind → Category
  | .html5Tags => r.html5Tags
  | .obsoleteTags => r.obsoleteTags
  | .attributes => r.attributes

/-- what a page has to compare with a list -/
def PageNames.seen (page : PageNames) : Kind → NameSet
  | .html5Tags | .obsoleteTags => page.tags
  | .attributes => page.attributes

def Observation.seen (o : Observation) : Kind → NameSet
  | .html5Tags | .obsoleteTags => o.tags
  | .attributes => o.attributes

theorem Observation.seen_absorb (o : Observation) (page : PageNames) (k : Kind) :
    (o.absorb page).seen k = (o.seen k).insertAll (page.seen k).names := by
  cases k <;> rfl

theorem Report.ext_category {r r' : Report} (hpages : r.pagesScanned = r'.pagesScanned)
    (htags : r.totalTags = r'.totalTags) (h : ∀ k, r.category k = r'.category k) : r = r' := by
  obtain ⟨p, n, a, b, c⟩ := r
  obtain ⟨p', n', a', b', c'⟩ := r'
  rw [mk.injEq]
  exact ⟨hpages, htags, h .html5Tags, h .obsoleteTags, h .attributes⟩

theorem Report.category_compute (v : Vocabulary) (o : Observation) (k : Kind) :
    (compute v o).category k = .compute (v.list k) (o.seen k) := by
  cases k <;> rfl

/-- the report on pages, one after another -/
def Vocabulary.report (v : Vocabulary) (pages : List PageNames) : Report :=
  .compute v (.ofPages pages)

/-! ## what has been seen -/

theorem mem_seen_foldl_absorb {x : String} {k : Kind} (pages : List PageNames) (o : Observation) :
    x ∈ ((pages.foldl Observation.absorb o).seen k).names ↔
      (∃ page ∈ pages, x ∈ (page.seen k).names) ∨ x ∈ (o.seen k).names := by
  induction pages generalizing o with
  | nil => simp
  | cons page pages ih =>
    rw [List.foldl_cons, ih, Observation.seen_absorb, NameSet.mem_insertAll,
      List.exists_mem_cons_iff, or_assoc, or_left_comm]

theorem mem_seen_ofPages {x : String} {k : Kind} {pages : List PageNames} :
    x ∈ ((Observation.ofPages pages).seen k).names ↔ ∃ page ∈ pages, x ∈ (page.seen k).names := by
  rw [Observation.ofPages, mem_seen_foldl_absorb, or_iff_left]
  cases k <;> exact List.not_mem_nil

theorem mem_missing_report {x : String} {k : Kind} {v : Vocabulary} {pages : List PageNames} :
    x ∈ ((v.report pages).category k).missing.names ↔
      x ∈ v.list k ∧ ∀ page ∈ pages, x ∉ (page.seen k).names := by
  rw [Vocabulary.report, Report.category_compute, Category.mem_missing_compute, mem_seen_ofPages]
  simp only [not_exists, not_and]

theorem mem_missing_report_append {x : String} {k : Kind} {v : Vocabulary} {a b : List PageNames} :
    x ∈ ((v.report (a ++ b)).category k).missing.names ↔
      x ∈ ((v.report a).category k).missing.names ∧
        x ∈ ((v.report b).category k).missing.names := by
  rw [mem_missing_report, mem_missing_report, mem_missing_report, List.forall_mem_append]
  exact and_and_left

theorem pagesScanned_report (v : Vocabulary) (pages : List PageNames) :
    (v.report pages).pagesScanned = pages.length := Observation.pages_ofPages pages

theorem pagesScanned_report_append (v : Vocabulary) (a b : List PageNames) :
    (v.report (a ++ b)).pagesScanned = (v.report a).pagesScanned + (v.report b).pagesScanned := by
  rw [pagesScanned_report, pagesScanned_report, pagesScanned_report, List.length_append]

/-! ## what is counted -/

theorem NameSet.toFinset_ofList (ns : List String) : (ofList ns).names.toFinset = ns.toFinset := by
  ext x
  rw [List.mem_toFinset, List.mem_toFinset, mem_ofList]

/-- A set of names is as large as the set it lists. -/
theorem NameSet.size_ofList (ns : List String) : (ofList ns).size = ns.toFinset.card := by
  rw [← toFinset_ofList, List.toFinset_card_of_nodup]
  · rfl
  · exact (ofList ns).sorted.imp fun h => ne_of_lt h

theorem NameSet.ofList_congr {a b : List String} (h : ∀ x, x ∈ a ↔ x ∈ b) :
    ofList a = ofList b :=
  ext_mem fun x => by rw [mem_ofList, mem_ofList, h]

/-- The numbers of a report are those of the sets they stand for. -/
structure Report.Counts (v : Vocabulary) (r : Report) : Prop where
  total : ∀ k, (r.category k).total = (v.list k).toFinset.card
  observed : ∀ k, (r.category k).observed + (r.category k).missing.size = (r.category k).total
  missing_le : ∀ k, (r.category k).missing.size ≤ (r.category k).total
  missing_subset : ∀ k, (r.category k).missing.names ⊆ v.list k
  totalTags : r.totalTags = (v.html5Tags.toFinset ∪ v.obsoleteTags.toFinset).card

theorem Report.counts_compute (v : Vocabulary) (o : Observation) : (compute v o).Counts v where
  total k := by
    rw [category_compute]
    exact NameSet.size_ofList _
  observed k := by
    rw [category_compute]
    exact Category.observed_add_missing _ _
  missing_le k := by
    rw [category_compute]
    exact List.length_filter_le _ _
  missing_subset k x hx := by
    rw [category_compute] at hx
    exact (Category.mem_missing_compute.mp hx).1
  totalTags := by
    rw [← List.toFinset_append]
    exact NameSet.size_ofList _

theorem Category.compute_congr {a b : List String} (h : ∀ x, x ∈ a ↔ x ∈ b) (seen : NameSet) :
    compute a seen = compute b seen := by
  unfold compute
  rw [NameSet.ofList_congr h]

/-- Only the members of its lists matter of a vocabulary. -/
theorem Report.compute_congr {v w : Vocabulary} (h : ∀ k x, x ∈ v.list k ↔ x ∈ w.list k)
    (o : Observation) : compute v o = compute w o := by
  have htags : NameSet.ofList (v.html5Tags ++ v.obsoleteTags) =
      NameSet.ofList (w.html5Tags ++ w.obsoleteTags) :=
    NameSet.ofList_congr fun x => by
      rw [List.mem_append, List.mem_append]
      exact or_congr (h .html5Tags x) (h .obsoleteTags x)
  refine ext_category rfl (congrArg NameSet.size htags) fun k => ?_
  rw [category_compute, category_compute]
  exact Category.compute_congr (h k) _

/-! ## a scanner -/

/-- what the pages below a directory hold, in the order of the walk -/
def pageContents (t : FileTree) (dir : Path) : List (Except IoCause ByteArray) :=
  ((t.files dir).filter isPage).map t.contents

theorem exists_pageContents (t : FileTree) (dir : Path) :
    ∃ contents : List ByteArray, pageContents t dir = contents.map .ok := by
  have hrange : pageContents t dir ∈ Set.range (List.map Except.ok) := by
    rw [Set.range_list_map]
    intro c hc
    obtain ⟨p, hp, rfl⟩ := List.mem_map.mp hc
    have hfile := FileTree.isFile_of_mem_files (List.mem_filter.mp hp).1
    rw [FileTree.isFile] at hfile
    rw [FileTree.contents]
    split at hfile
    · next content hlook => exact ⟨content, by rw [hlook]⟩
    · cases hfile
  obtain ⟨contents, hcontents⟩ := hrange
  exact ⟨contents, hcontents.symm⟩

namespace Scanner

variable {σ : Type} {s : Scanner σ} {tree : String → Option Markup.Node}

/-- the names in a page, when what the parser makes of a text depends on the text alone -/
def pageNames (tree : String → Option Markup.Node) (content : ByteArray) : PageNames :=
  namesOf (tree (Text.Utf8.lossy content.toList))

/-- A scanner sees of its files what they hold, whatever its parser has seen before. -/
theorem observePages_of_contents (htree : ∀ state source, (s.parse state source).1 = tree source)
    {t : FileTree} {pages : List Path} {contents : List ByteArray}
    (h : pages.map t.contents = contents.map .ok) (o : Observation) :
    (observePages t pages s o).1 =
      .ok ((contents.map (pageNames tree)).foldl Observation.absorb o) := by
  induction pages generalizing s o contents with
  | nil =>
    rw [List.map_nil, eq_comm, List.map_eq_nil_iff] at h
    rw [h]
    rfl
  | cons p pages ih =>
    obtain ⟨content, contents, rfl, hp, hcontents⟩ := List.map_eq_cons_iff.mp h.symm
    have hnames : (s.extract (Text.Utf8.lossy content.toList)).1 = pageNames tree content :=
      congrArg namesOf (htree s.state _)
    rw [observePages_cons hp.symm, ih (s := (s.extract _).2) htree hcontents.symm, hnames,
      List.map_cons, List.foldl_cons]

/-- A scan leaves a scanner with the same parser and the same names. -/
theorem observePages_snd (t : FileTree) (pages : List Path) (o : Observation) :
    ∃ state : σ, (observePages t pages s o).2 = { s with state } := by
  induction pages generalizing s o with
  | nil => exact ⟨s.state, rfl⟩
  | cons p pages ih =>
    rw [observePages]
    cases t.contents p with
    | error cause => exact ⟨s.state, rfl⟩
    | ok content => exact ih (s := (s.extract (Text.Utf8.lossy content.toList)).2) _

theorem scan_snd (s : Scanner σ) (t : FileTree) (dir : Path) :
    ∃ state : σ, (s.scan t dir).2 = { s with state } := by
  rw [scan, observe]
  cases pagesIn t dir with
  | error e => exact ⟨s.state, rfl⟩
  | ok pages => exact observePages_snd t pages .empty

theorem parse_scan (s : Scanner σ) (t : FileTree) (dir : Path) :
    (s.scan t dir).2.parse = s.parse := by
  obtain ⟨state, hstate⟩ := s.scan_snd t dir
  rw [hstate]

/-- It makes no difference whether a scanner is used again, if its parser keeps nothing. -/
theorem scan_reading (v : Vocabulary) (t : FileTree) (dir : Path) :
    (reading v).scan t dir = (Coverage.scan v t dir, reading v) := by
  obtain ⟨state, hstate⟩ := (reading v).scan_snd t dir
  exact Prod.ext rfl hstate

/-- A directory is always reported on, by what its pages hold. -/
theorem scan_of_isDir (htree : ∀ state source, (s.parse state source).1 = tree source)
    {t : FileTree} {dir : Path} (hdir : t.isDir dir = true) :
    ∃ contents : List ByteArray, pageContents t dir = contents.map .ok ∧
      (s.scan t dir).1 = .ok (s.vocabulary.report (contents.map (pageNames tree))) := by
  obtain ⟨contents, hcontents⟩ := exists_pageContents t dir
  refine ⟨contents, hcontents, ?_⟩
  have hobserve : (s.observe t dir).1 = .ok (.ofPages (contents.map (pageNames tree))) := by
    rw [observe, pagesIn, if_pos hdir]
    exact observePages_of_contents htree hcontents .empty
  show (s.observe t dir).1.map (Report.compute s.vocabulary) = _
  rw [hobserve]
  rfl

theorem isDir_of_scan {t : FileTree} {dir : Path} {r : Report} (h : (s.scan t dir).1 = .ok r) :
    t.isDir dir = true := by
  by_contra hdir
  rw [scan, observe, pagesIn, if_neg hdir] at h
  cases h

/-- Corpora whose pages hold the same are reported alike, whatever the pages are called and whatever
the parser has seen before. -/
theorem scan_eq_of_contents (htree : ∀ state source, (s.parse state source).1 = tree source)
    {t₁ t₂ : FileTree} {dir₁ dir₂ : Path}
    (hperm : (pageContents t₁ dir₁).Perm (pageContents t₂ dir₂)) {state₁ state₂ : σ}
    {r₁ r₂ : Report} (h₁ : ({ s with state := state₁ }.scan t₁ dir₁).1 = .ok r₁)
    (h₂ : ({ s with state := state₂ }.scan t₂ dir₂).1 = .ok r₂) : r₁ = r₂ := by
  obtain ⟨contents₁, hcontents₁, hr₁⟩ :=
    scan_of_isDir (s := { s with state := state₁ }) htree (isDir_of_scan h₁)
  obtain ⟨contents₂, hcontents₂, hr₂⟩ :=
    scan_of_isDir (s := { s with state := state₂ }) htree (isDir_of_scan h₂)
  rw [hcontents₁, hcontents₂] at hperm
  have hperm := (List.map_perm_map_iff fun _ _ => Except.ok.inj).mp hperm
  rw [← Except.ok.inj (hr₁.symm.trans h₁), ← Except.ok.inj (hr₂.symm.trans h₂)]
  exact congrArg (Report.compute s.vocabulary) (Observation.ofPages_perm (hperm.map _))

end Scanner

/-- The names missing from two corpora together are those missing from each, and the pages add up;
the numbers of a report are those of the sets they stand for; neither the order of the pages nor
that of the names of a vocabulary matters, nor how often a name stands in it.  So two directories
whose pages hold the same are reported alike to the last byte, under whatever names the pages are
kept, both by scanners that have read other pages before and by one that reads first the one
directory and then the other, as long as the tree of a page depends on its text alone; and every
directory is reported on, with all of its pages. -/
theorem reports_of_contents {σ : Type} (v : Vocabulary) (s : Scanner σ)
    (tree : String → Option Markup.Node)
    (htree : ∀ state source, (s.parse state source).1 = tree source) :
    (∀ a b : List PageNames,
        (∀ k x, x ∈ ((v.report (a ++ b)).category k).missing.names ↔
          x ∈ ((v.report a).category k).missing.names ∧
            x ∈ ((v.report b).category k).missing.names) ∧
          (v.report (a ++ b)).pagesScanned =
            (v.report a).pagesScanned + (v.report b).pagesScanned) ∧
      (∀ pages, (v.report pages).Counts v) ∧
      (∀ a b : List PageNames, a.Perm b → v.report a = v.report b) ∧
      (∀ w : Vocabulary, (∀ k x, x ∈ v.list k ↔ x ∈ w.list k) →
        ∀ pages, v.report pages = w.report pages) ∧
      (∀ t₁ t₂ dir₁ dir₂, (pageContents t₁ dir₁).Perm (pageContents t₂ dir₂) → ∀ r₁ r₂,
        (∀ state₁ state₂, ({ s with state := state₁ }.scan t₁ dir₁).1 = .ok r₁ →
            ({ s with state := state₂ }.scan t₂ dir₂).1 = .ok r₂ →
            r₁ = r₂ ∧ r₁.text = r₂.text ∧ r₁.jsonText = r₂.jsonText) ∧
          ((s.scan t₁ dir₁).1 = .ok r₁ → ((s.scan t₁ dir₁).2.scan t₂ dir₂).1 = .ok r₂ →
            r₁ = r₂ ∧ r₁.text = r₂.text ∧ r₁.jsonText = r₂.jsonText)) ∧
      (∀ t dir, t.isDir dir = true →
        ∃ r, (s.scan t dir).1 = .ok r ∧ r.pagesScanned = (pageContents t dir).length) ∧
      (∀ t dir, ((Scanner.reading v).scan t dir).1 = scan v t dir) := by
  have halike : ∀ {r₁ r₂ : Report}, r₁ = r₂ →
      r₁ = r₂ ∧ r₁.text = r₂.text ∧ r₁.jsonText = r₂.jsonText :=
    fun h => ⟨h, congrArg _ h, congrArg _ h⟩
  refine ⟨fun a b => ⟨fun k x => mem_missing_report_append, ?_⟩, fun pages => ?_, fun a b h => ?_,
    fun w h pages => ?_, fun t₁ t₂ dir₁ dir₂ hperm r₁ r₂ => ⟨fun _ _ h₁ h₂ => ?_, fun h₁ h₂ => ?_⟩,
    fun t dir hdir => ?_, fun t dir => ?_⟩
  · exact pagesScanned_report_append v a b
  · exact Report.counts_compute v _
  · exact congrArg (Report.compute v) (Observation.ofPages_perm h)
  · exact Report.compute_congr h _
  · exact halike (Scanner.scan_eq_of_contents htree hperm h₁ h₂)
  · -- the first scan leaves the same scanner, but for the state of its parser
    obtain ⟨state, hstate⟩ := s.scan_snd t₁ dir₁
    have hfirst : ({ s with state := s.state }.scan t₁ dir₁).1 = .ok r₁ := h₁
    rw [hstate] at h₂
    exact halike (Scanner.scan_eq_of_contents htree hperm hfirst h₂)
  · obtain ⟨contents, hcontents, hscan⟩ := Scanner.scan_of_isDir htree hdir
    refine ⟨_, hscan, ?_⟩
    rw [pagesScanned_report, hcontents, List.length_map, List.length_map]
  · rw [Scanner.scan_reading]

/-- Two pages, and the same two under other names, one of them in a directory of its own, beside a
file that is no page; the parser counts its pages. -/
theorem reports_of_contents_of_renamed :
    let tree := fun source => some (Markup.read source)
    let count : Scanner Nat :=
      ⟨fun n source => (tree source, n + 1), 0,
        ⟨["p", "b", "p"], ["b", "blink"], ["id", "class"]⟩⟩
    let bold := "<b>".toByteArray
    let paragraph := "<p id=1>".toByteArray
    let here : FileTree :=
      ⟨.dir [99] (.file "a.html".toUTF8.toList 0 bold
        (.file "b.htm".toUTF8.toList 1 paragraph .nil)) .nil, [], 2⟩
    let there : FileTree :=
      ⟨.dir [99] (.dir [100] (.file "z.htm".toUTF8.toList 0 bold .nil)
        (.file "a.html".toUTF8.toList 1 paragraph
          (.file "b.txt".toUTF8.toList 2 "<i>".toByteArray .nil))) .nil, [], 3⟩
    let dir := Path.ofString "c"
    (∀ n source, (count.parse n source).1 = tree source) ∧
      (pageContents here dir).Perm (pageContents there dir) ∧
      ∃ r, (count.scan here dir).1 = .ok r ∧ ((count.scan here dir).2.scan there dir).1 = .ok r ∧
        r.pagesScanned = 2 ∧ r.totalTags = 3 := by
  intro tree count bold paragraph here there dir
  have hhere : pageContents here dir = [.ok bold, .ok paragraph] := by
    dsimp only [here, dir, bold, paragraph]
    cbv
  have hthere : pageContents there dir = [.ok paragraph, .ok bold] := by
    dsimp only [there, dir, bold, paragraph]
    cbv
  have hperm : (pageContents here dir).Perm (pageContents there dir) := by
    rw [hhere, hthere]
    exact .swap _ _ _
  have hdirs : here.isDir dir = true ∧ there.isDir dir = true := by
    dsimp only [here, there, dir]
    exact ⟨by cbv, by cbv⟩
  have hparse : ∀ n source, (count.parse n source).1 = tree source := fun _ _ => rfl
  obtain ⟨contents, hcontents, hr⟩ := Scanner.scan_of_isDir hparse hdirs.1
  obtain ⟨_, -, hr'⟩ := Scanner.scan_of_isDir (s := (count.scan here dir).2)
    (by rw [Scanner.parse_scan]; exact hparse) hdirs.2
  have hlength : contents.length = 2 := by
    rw [← List.length_map Except.ok, ← hcontents, hhere]
    rfl
  obtain ⟨-, -, -, -, hscan, -⟩ := reports_of_contents count.vocabulary count tree hparse
  obtain ⟨heq, -, -⟩ := (hscan here there dir dir hperm _ _).2 hr hr'
  rw [← heq] at hr'
  refine ⟨hparse, hperm, _, hr, hr', ?_, ?_⟩
  · rw [pagesScanned_report, List.length_map, hlength]
  · rw [Vocabulary.report, (Report.counts_compute _ _).totalTags]
    decide

end PageFuzz.Coverage
