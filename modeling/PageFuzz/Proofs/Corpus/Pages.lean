import PageFuzz.Proofs.Corpus.Attempts
import PageFuzz.Proofs.Corpus.Lockstep
import PageFuzz.Proofs.Coverage.Reports
import PageFuzz.Proofs.Files.Flat
import PageFuzz.Proofs.Files.Numbered
import PageFuzz.Proofs.Text.Utf8

/-!
# The pages of a corpus in their directory

A corpus is made in a directory that is empty, and what the directory holds then are its pages and
nothing else.  They are listed in the order of their names, which is not that of their numbers.

* `made`, `listed`        the pages of some texts with their numbers, as they are made and listed;
* `pairwise_listed`       they are listed in strict order of their names;
* `drawn_of_writePages`   the texts of a corpus, one drawn after another;
* `Stock`                 a folder that holds the pages of some texts;
* `Stock.files_eq`, `Stock.scan_eq`  what is listed and observed where such a folder is;
* `Making.write`          one page more;
* `Making.written`        a whole corpus.
-/

namespace PageFuzz.Corpus

/-! ## names -/

/-- the name of the file of a page -/
def pageName (n : Nat) : Name := (Path.ofString (pageFileName n)).bytes

theorem isFileName_pageName (n : Nat) : Path.IsFileName (pageName n) := by
  refine Path.isFileName_numbered (fun c hc => ?_) n
  have hletters : "page".toList = ['p', 'a', 'g', 'e'] := rfl
  rw [hletters] at hc
  simp only [List.mem_cons, List.not_mem_nil, or_false] at hc
  rcases hc with rfl | rfl | rfl | rfl <;> decide

theorem pageName_injective : Function.Injective pageName := fun _ _ h => Path.numbered_injective h

/-- The order of the names is not that of the numbers. -/
theorem pageName_ten_lt : pageName 10 < pageName 2 := by
  have hten : pageName 10 = [112, 97, 103, 101, 49, 48, 46, 104, 116, 109, 108] := by cbv
  have htwo : pageName 2 = [112, 97, 103, 101, 50, 46, 104, 116, 109, 108] := by cbv
  rw [hten, htwo]
  decide

/-- Every file of a corpus is a page. -/
theorem isPage_pagePath {dir : Path} (hdir : dir.bytes ≠ []) (n : Nat) :
    Coverage.isPage (pagePath dir n) = true := by
  have hextension : (pagePath dir n).extension? = some (Path.ofString "html").bytes :=
    Path.extension?_numbered hdir (isFileName_pageName n)
  rw [Coverage.isPage, hextension, Coverage.pageExtensions]
  exact List.elem_cons_self

/-! ## the order of the names -/

/-- the pages of some texts with their numbers -/
def made (texts : List String) : List (String × Nat) := texts.zipIdx 1

/-- the same in the order of the names of their files -/
def listed (texts : List String) : List (String × Nat) :=
  (made texts).mergeSort fun a b => decide (pageName a.2 ≤ pageName b.2)

section
variable {texts : List String} {page : String × Nat}

theorem made_concat (texts : List String) (text : String) :
    made (texts ++ [text]) = made texts ++ [(text, texts.length + 1)] := by
  rw [made, made, List.zipIdx_append, List.zipIdx_cons, List.zipIdx_nil, Nat.add_comm 1]

theorem map_made (texts : List String) : (made texts).map (·.1) = texts :=
  List.zipIdx_map_fst 1 texts

theorem numbers_made (texts : List String) :
    (made texts).map (·.2) = List.range' 1 texts.length := List.zipIdx_map_snd 1 texts

theorem number_le (h : page ∈ made texts) : page.2 ≤ texts.length := by
  have hmem : page.2 ∈ (made texts).map (·.2) := List.mem_map_of_mem h
  rw [numbers_made] at hmem
  have := (List.mem_range'_1.mp hmem).2
  omega

theorem listed_perm (texts : List String) : (listed texts).Perm (made texts) :=
  List.mergeSort_perm _ _

theorem length_listed (texts : List String) : (listed texts).length = texts.length := by
  rw [(listed_perm texts).length_eq, made, List.length_zipIdx]

theorem mem_made (h : page ∈ listed texts) : page ∈ made texts := (listed_perm texts).mem_iff.mp h

theorem nodup_numbers (texts : List String) : ((listed texts).map (·.2)).Nodup := by
  rw [((listed_perm texts).map _).nodup_iff, numbers_made]
  exact List.nodup_range'

/-- No two pages have one name, so their order is strict. -/
theorem pairwise_listed (texts : List String) :
    (listed texts).Pairwise fun a b => pageName a.2 < pageName b.2 := by
  have hsorted : (listed texts).Pairwise fun a b =>
      decide (pageName a.2 ≤ pageName b.2) = true := by
    refine List.pairwise_mergeSort (fun a b c hab hbc => ?_) (fun a b => ?_) _
    · exact decide_eq_true (List.le_trans (of_decide_eq_true hab) (of_decide_eq_true hbc))
    · rw [Bool.or_eq_true, decide_eq_true_eq, decide_eq_true_eq]
      exact List.le_total _ _
  have hdistinct : (listed texts).Pairwise fun a b => a.2 ≠ b.2 :=
    List.pairwise_map.mp (nodup_numbers texts)
  refine hsorted.imp₂ (fun a b hle hne => ?_) hdistinct
  have hname : pageName a.2 ≠ pageName b.2 := fun he => hne (pageName_injective he)
  exact (List.le_iff_lt_or_eq.mp (of_decide_eq_true hle)).resolve_right hname

/-- Pages that are in the order of their names are listed in that order. -/
theorem sublist_listed {a b : Nat} (ha : a ∈ List.range' 1 texts.length)
    (hb : b ∈ List.range' 1 texts.length) (h : pageName a < pageName b) :
    [a, b].Sublist ((listed texts).map (·.2)) := by
  have hmem : ∀ n ∈ List.range' 1 texts.length, n ∈ (listed texts).map (·.2) := by
    intro n hn
    rw [((listed_perm texts).map _).mem_iff, numbers_made]
    exact hn
  have hsorted : ((listed texts).map (·.2)).Pairwise fun m n => pageName m < pageName n :=
    List.pairwise_map.mpr (pairwise_listed texts)
  have hasymm : Std.Antisymm fun m n => pageName m < pageName n :=
    ⟨fun _ _ hmn hnm => absurd hnm (List.lt_asymm hmn)⟩
  have hne : a ≠ b := by
    rintro rfl
    exact List.lt_irrefl _ h
  have hsub : [a, b].Subperm ((listed texts).map (·.2)) := by
    refine List.subperm_of_subset (by simpa using hne) fun n hn => ?_
    rcases List.mem_cons.mp hn with rfl | hn
    · exact hmem _ ha
    · obtain rfl := List.mem_singleton.mp hn
      exact hmem _ hb
  exact List.sublist_of_subperm_of_pairwise hsub (by simpa using h) hsorted

end

/-! ## the texts -/

/-- What a corpus has written when it is done, whoever chooses. -/
theorem drawn_of_writePages {σ τ : Type} {e : Expander} {c : Chooser σ} {start : String}
    {store : Storage τ} {dir : Path} {count n : Nat} {written paths : List Path} {s s' : σ}
    {files files' : τ}
    (h : writePages store dir e c start count n written s files = (.ok paths, s', files')) :
    ∃ texts, texts.length = count ∧ paths = written.reverse ++ pagePaths dir n count ∧
      Drawn e c start s texts s' ∧ Written store dir n texts files files' := by
  obtain ⟨texts, s₁, files₁, hdrawn, hwritten, hend⟩ := writePages_ends h
  rcases hend with ⟨hlength, hr, rfl, rfl⟩ | ⟨-, -, _, -, hr⟩ | ⟨-, _, _, -, -, hr⟩
  · exact ⟨texts, hlength, Except.ok.inj hr, hdrawn, hwritten⟩
  · cases hr
  · cases hr

/-! ## a folder of pages -/

/-- The folder holds the pages of some texts and nothing else. -/
structure Stock (dir : Path) (texts : List String) (f : Folder) : Prop where
  onlyFiles : f.onlyFiles = true
  names_eq : f.names = (made texts).map fun page => pageName page.2
  fits : ∀ page ∈ made texts, ¬ dir.TooLong (pageName page.2)
  file : ∀ page ∈ made texts,
    ∃ mark, f.find? (pageName page.2) = some (.file mark page.1.toByteArray)

namespace Stock

variable {dir : Path} {texts : List String} {t : FileTree} {d : List Name} {f : Folder}

theorem empty (dir : Path) : Stock dir [] .nil := ⟨rfl, rfl, nofun, nofun⟩

/-- The number of the next page is free. -/
theorem free (hf : Stock dir texts f) : pageName (texts.length + 1) ∉ f.names := by
  intro hmem
  rw [hf.names_eq] at hmem
  obtain ⟨page, hpage, hname⟩ := List.mem_map.mp hmem
  have hle := number_le hpage
  have := pageName_injective hname
  omega

theorem put (hf : Stock dir texts f) {text : String}
    (hfits : ¬ dir.TooLong (pageName (texts.length + 1))) (mark : Nat) :
    Stock dir (texts ++ [text])
      (f.put (pageName (texts.length + 1)) (.file mark text.toByteArray)) where
  onlyFiles := Folder.onlyFiles_put hf.onlyFiles mark _
  names_eq := by
    rw [Folder.names_put _ hf.free, hf.names_eq, made_concat, List.map_append]
    rfl
  fits page hpage := by
    rw [made_concat] at hpage
    rcases List.mem_append.mp hpage with hpage | hpage
    · exact hf.fits page hpage
    · obtain rfl := List.mem_singleton.mp hpage
      exact hfits
  file page hpage := by
    rw [made_concat] at hpage
    rcases List.mem_append.mp hpage with hpage | hpage
    · have hne : pageName (texts.length + 1) ≠ pageName page.2 := by
        intro he
        have hle := number_le hpage
        have := pageName_injective he
        omega
      rw [Folder.find?_put_of_ne hne]
      exact hf.file page hpage
    · obtain rfl := List.mem_singleton.mp hpage
      exact ⟨mark, Folder.find?_put_self _ _ f⟩

/-! ### what is seen of it -/

/-- The pages are listed in the order of their names. -/
theorem files_eq (hf : Stock dir texts f) (hs : t.Shows dir d f) :
    t.files dir = (listed texts).map fun page => pagePath dir page.2 := by
  have hnames : ∀ x ∈ f.names, Path.IsFileName x ∧ ¬ dir.TooLong x := by
    intro x hx
    rw [hf.names_eq] at hx
    obtain ⟨page, hpage, rfl⟩ := List.mem_map.mp hx
    exact ⟨isFileName_pageName page.2, hf.fits page hpage⟩
  have hsort : (listed texts).map (fun page => pageName page.2) =
      ((made texts).map fun page => pageName page.2).mergeSort fun a b => decide (a ≤ b) :=
    List.map_mergeSort fun _ _ _ _ => rfl
  rw [hs.files_eq hf.onlyFiles hnames, hf.names_eq, ← hsort, List.map_map]
  rfl

theorem contents_eq (hf : Stock dir texts f) (hs : t.Shows dir d f) {page : String × Nat}
    (hpage : page ∈ listed texts) :
    t.contents (pagePath dir page.2) = .ok page.1.toByteArray := by
  obtain ⟨mark, hfound⟩ := hf.file page (mem_made hpage)
  exact hs.contents_join (isFileName_pageName page.2) (hf.fits page (mem_made hpage)) hfound

/-- All the files are pages, -/
theorem pages_eq (hf : Stock dir texts f) (hs : t.Shows dir d f) :
    (t.files dir).filter Coverage.isPage =
      (listed texts).map fun page => pagePath dir page.2 := by
  rw [hf.files_eq hs, List.filter_eq_self]
  intro p hp
  obtain ⟨page, -, rfl⟩ := List.mem_map.mp hp
  exact isPage_pagePath hs.bytes_ne_nil page.2

theorem pagesIn_eq (hf : Stock dir texts f) (hs : t.Shows dir d f) :
    Coverage.pagesIn t dir = .ok ((listed texts).map fun page => pagePath dir page.2) := by
  rw [Coverage.pagesIn, if_pos hs.isDir, hf.pages_eq hs]

theorem pageContents_eq (hf : Stock dir texts f) (hs : t.Shows dir d f) :
    Coverage.pageContents t dir = ((listed texts).map (·.1.toByteArray)).map .ok := by
  rw [Coverage.pageContents, hf.pages_eq hs, List.map_map, List.map_map]
  exact List.map_congr_left fun page hpage => hf.contents_eq hs hpage

/-- and what is observed in them is what is in the texts, in whatever order. -/
theorem scan_eq (hf : Stock dir texts f) (hs : t.Shows dir d f) (v : Coverage.Vocabulary) :
    Coverage.scan v t dir =
      .ok (.compute v (.ofPages (texts.map Coverage.extract))) := by
  obtain ⟨contents, hcontents, hscan⟩ :=
    Coverage.Scanner.scan_of_isDir (s := .reading v) (fun _ _ => rfl) hs.isDir
  rw [hf.pageContents_eq hs] at hcontents
  obtain rfl := (List.map_injective_iff.mpr fun _ _ => Except.ok.inj) hcontents
  have hperm : (((listed texts).map (·.1.toByteArray)).map
      (Coverage.Scanner.pageNames fun source => some (Markup.read source))).Perm
      (texts.map Coverage.extract) := by
    have hnames : ∀ page : String × Nat, Coverage.Scanner.pageNames
        (fun source => some (Markup.read source)) page.1.toByteArray =
          Coverage.extract page.1 := by
      intro page
      rw [Coverage.Scanner.pageNames, Text.Utf8.lossy_toByteArray]
      rfl
    have htexts : (made texts).map (fun page => Coverage.extract page.1) =
        texts.map Coverage.extract := by
      have hmap := congrArg (List.map Coverage.extract) (map_made texts)
      rwa [List.map_map] at hmap
    rw [List.map_map, ← htexts]
    refine List.Perm.trans (List.Perm.of_eq ?_) ((listed_perm texts).map _)
    exact List.map_congr_left fun page _ => hnames page
  exact hscan.trans (congrArg (fun o => Except.ok (Coverage.Report.compute v o))
    (Coverage.Observation.ofPages_perm hperm))

end Stock

/-! ## making it -/

/-- A directory that was empty in `t₀` holds the pages of some texts, and elsewhere nothing has
changed.  Their marks are new, so no file that was there has one of them. -/
structure Making (t₀ : FileTree) (dir : Path) (d : List Name) (texts : List String) (t : FileTree)
    (f : Folder) : Prop where
  shows : t.Shows dir d f
  stock : Stock dir texts f
  sound : t.Sound
  onlyBelow : t₀.OnlyBelow d t
  nextMark_le : t₀.nextMark ≤ t.nextMark
  mark_ge : ∀ mark ∈ f.marks, t₀.nextMark ≤ mark

namespace Making

variable {t₀ t t' : FileTree} {dir : Path} {d : List Name} {texts : List String} {f : Folder}

theorem start (hsound : t.Sound) (hs : t.Shows dir d .nil) : Making t dir d [] t .nil where
  shows := hs
  stock := .empty dir
  sound := hsound
  onlyBelow := .refl d t
  nextMark_le := Nat.le_refl _
  mark_ge := nofun

theorem write (h : Making t₀ dir d texts t f) {text : String}
    (hw : t.writeFile (pagePath dir (texts.length + 1)) text.toByteArray = .ok t') :
    ∃ f', Making t₀ dir d (texts ++ [text]) t' f' := by
  have hfree : f.find? (pageName (texts.length + 1)) = none :=
    Folder.find?_eq_none.mpr h.stock.free
  have hsound := h.sound.writeFile hw
  obtain ⟨hfits, rfl, hshows⟩ := h.shows.writeFile (isFileName_pageName _) hfree hw
  have hbelow : t.OnlyBelow d { t.put d (pageName (texts.length + 1))
      (.file t.nextMark text.toByteArray) with nextMark := t.nextMark + 1 } :=
    .of_within (fun g y hy => Folder.find?_put_of_ne (Ne.symm hy) _ g) h.shows.at_eq
      (fun _ hnode => Folder.kind_of_free hfree hnode) (List.prefix_append _ _) rfl rfl
  refine ⟨_, hshows, h.stock.put hfits _, hsound, h.onlyBelow.trans hbelow,
    Nat.le_succ_of_le h.nextMark_le, fun mark hmark => ?_⟩
  rcases List.mem_append.mp (Folder.marks_put _ _ f hmark) with hnew | hold
  · obtain rfl := List.mem_singleton.mp hnew
    exact h.nextMark_le
  · exact h.mark_ge mark hold

theorem written {more : List String} (h : Making t₀ dir d texts t f)
    (hw : Written FileTree.storage dir (texts.length + 1) more t t') :
    ∃ f', Making t₀ dir d (texts ++ more) t' f' := by
  induction more generalizing texts t f with
  | nil =>
    obtain rfl : t = t' := hw
    exact ⟨f, (List.append_nil texts).symm ▸ h⟩
  | cons text more ih =>
    obtain ⟨next, hwrite, hrest⟩ := hw
    obtain ⟨f', hnext⟩ := h.write (writeFile_of_write hwrite)
    have hlength : (texts ++ [text]).length = texts.length + 1 := List.length_append
    rw [← hlength] at hrest
    obtain ⟨f'', hdone⟩ := ih hnext hrest
    rw [List.append_assoc] at hdone
    exact ⟨f'', hdone⟩

/-- The next mark is that of none of the pages, -/
theorem nextMark_not_mem (h : Making t₀ dir d texts t f) : t.nextMark ∉ f.marks := by
  intro hmem
  have hlt := h.sound.marks _ (Folder.marks_subset_of_at h.shows.at_eq hmem)
  exact absurd hlt (Nat.lt_irrefl _)

/-- and neither is that of a file elsewhere. -/
theorem mark_not_mem (h : Making t₀ dir d texts t f) (hsound : t₀.Sound) {q : Path} {b : List Name}
    {n : Name} {mark : Nat} {content : ByteArray}
    (hspot : t.fileSpot q = .ok (b, n, some (mark, content))) (helse : ¬ d <+: b) :
    mark ∉ f.marks := by
  intro hmem
  obtain ⟨g, hg, hfound, -⟩ := FileTree.site_of_fileSpot hspot
  have hnode : t.root.node? b n = some (.file mark content) := Folder.node?_of_file hg hfound
  have hapart : ¬ d <+: b ++ [n] := by
    intro hprefix
    rcases List.prefix_concat_iff.mp hprefix with rfl | hprefix
    · rw [Folder.node?_eq_dir h.shows.at_eq] at hnode
      cases hnode
    · exact helse hprefix
  -- so the file was there before the pages, and its mark is less than theirs
  rw [h.onlyBelow.node_eq b n hapart] at hnode
  have hlt := hsound.marks mark (Folder.mem_marks_of_node? hnode)
  have hge := h.mark_ge mark hmem
  omega

/-- A file that is opened elsewhere has the mark of none of the pages. -/
theorem openFile (h : Making t₀ dir d texts t f) (hsound : t₀.Sound) {q : Path} {b : List Name}
    {n : Name} {found : Option (Nat × ByteArray)} (hspot : t.fileSpot q = .ok (b, n, found))
    (helse : ¬ d <+: b) : ∃ mark t', t.openFile q = .ok (mark, t') ∧ mark ∉ f.marks := by
  rw [FileTree.openFile, hspot]
  cases found with
  | some file => exact ⟨file.1, t, rfl, h.mark_not_mem hsound hspot helse⟩
  | none => exact ⟨t.nextMark, _, rfl, h.nextMark_not_mem⟩

end Making

end PageFuzz.Corpus
