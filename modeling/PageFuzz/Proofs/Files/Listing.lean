import Mathlib.Tactic.Common
import PageFuzz.Files.Listing

/-!
# How listed files are shown

A file that is listed stands below the directory that was listed; so there is a slash in its path,
and in the text that the path is shown as, whatever bytes are around it.

* `Utf8.slash_mem_lossy`    a slash among bytes is shown;
* `Utf8.toList_lossy_of_ascii`  ASCII bytes are shown as they are;
* `Path.slash_mem_descend`  a path that goes below a directory has a slash;
* `slash_mem_of_mem_files`  every listed file is shown with a slash.
-/

namespace PageFuzz

namespace Text.Utf8

/-- no ASCII byte goes on with a character -/
def State.Sound : State → Prop
  | .idle => True
  | .inside _ least _ _ => 0x80 ≤ least

theorem sound_first (b : Nat) : (first b).2.Sound := by
  unfold first
  repeat' split
  all_goals first
    | trivial
    | exact Nat.le_of_ble_eq_true rfl

theorem sound_step (q : State) (b : Nat) : (step q b).2.Sound := by
  cases q with
  | idle => exact sound_first b
  | inside owed least greatest value =>
    rw [step]
    split
    · split
      · trivial
      · exact Nat.le_refl 0x80
    · exact sound_first b

/-- A slash ends what is before it and is shown itself. -/
theorem slash_mem_step {q : State} (hq : q.Sound) : some '/' ∈ (step q 47).1 := by
  cases q with
  | idle => exact List.mem_singleton.mpr rfl
  | inside owed least greatest value =>
    have hleast : 0x80 ≤ least := hq
    have hbreaks : ¬ (decide (least ≤ 47) && decide (47 ≤ greatest)) = true := by
      rw [Bool.and_eq_true, decide_eq_true_eq]
      omega
    rw [step, if_neg hbreaks]
    exact List.mem_cons_of_mem _ (List.mem_singleton.mpr rfl)

theorem slash_mem_piecesFrom {q : State} (hq : q.Sound) {bs : List UInt8} (h : 47 ∈ bs) :
    some '/' ∈ piecesFrom q bs := by
  induction bs generalizing q with
  | nil => cases h
  | cons b bs ih =>
    rw [piecesFrom]
    rcases List.mem_cons.mp h with rfl | hmem
    · exact List.mem_append_left _ (slash_mem_step hq)
    · exact List.mem_append_right _ (ih (sound_step q b.toNat) hmem)

theorem slash_mem_lossy {bs : List UInt8} (h : 47 ∈ bs) : '/' ∈ (lossy bs).toList := by
  rw [lossy_eq, String.toList_ofList]
  exact List.mem_map.mpr ⟨some '/', slash_mem_piecesFrom (q := .idle) trivial h, rfl⟩

/-- ASCII bytes are shown as they are. -/
theorem toList_lossy_of_ascii {bs : List UInt8} (h : ∀ b ∈ bs, b.toNat < 0x80) :
    (lossy bs).toList = bs.map fun b => Char.ofNat b.toNat := by
  have hpieces : pieces bs = bs.map fun b => some (Char.ofNat b.toNat) := by
    unfold pieces
    induction bs with
    | nil => rfl
    | cons b bs ih =>
      have hstep : step .idle b.toNat = ([some (Char.ofNat b.toNat)], .idle) := by
        rw [step, first, if_pos (h b List.mem_cons_self)]
      rw [piecesFrom, hstep, ih fun c hc => h c (List.mem_cons_of_mem _ hc)]
      rfl
  rw [lossy_eq, String.toList_ofList, hpieces, List.map_map]
  rfl

end Text.Utf8

namespace Path

theorem slash_mem_display {p : Path} (h : slash ∈ p.bytes) : '/' ∈ p.display.toList :=
  Text.Utf8.slash_mem_lossy h

theorem slash_mem_join {p : Path} (hp : p.bytes ≠ []) (q : Path) : slash ∈ (p.join q).bytes := by
  unfold join
  split
  · next habsolute =>
    have hhead : q.bytes.head? = some slash := by simpa [isAbsolute] using habsolute
    exact List.mem_of_mem_head? hhead
  · split
    · next hends =>
      have hempty : p.bytes.isEmpty = false := by simpa using hp
      rw [hempty, Bool.false_or] at hends
      have hlast : p.bytes.getLast? = some slash := by simpa [endsWithSlash] using hends
      exact List.mem_append_left _ (List.mem_of_mem_getLast? hlast)
    · exact List.mem_append_right _ List.mem_cons_self

theorem slash_mem_descend {p : Path} (hp : p.bytes ≠ []) {ns : List Name} (hns : ns ≠ []) :
    slash ∈ (p.descend ns).bytes := by
  have hkeep : ∀ {q : Path} (ms : List Name), slash ∈ q.bytes → slash ∈ (q.descend ms).bytes := by
    intro q ms hq
    induction ms generalizing q with
    | nil => exact hq
    | cons m ms ih => exact ih (slash_mem_join (List.ne_nil_of_mem hq) ⟨m⟩)
  obtain ⟨n, ns, rfl⟩ := List.exists_cons_of_ne_nil hns
  exact hkeep ns (slash_mem_join hp ⟨n⟩)

end Path

namespace Folder

theorem names_of_mem_groups {f : Folder} {g : Name × List (List Name × Node)} (hg : g ∈ f.groups)
    {r : List Name × Node} (hr : r ∈ g.2) : r.1 ≠ [] := by
  induction f with
  | nil => cases hg
  | file n mark content rest ih =>
    rcases List.mem_cons.mp hg with rfl | hrest
    · rw [List.mem_singleton.mp hr]
      exact List.cons_ne_nil n []
    · exact ih hrest
  | link n target rest ih =>
    rcases List.mem_cons.mp hg with rfl | hrest
    · rw [List.mem_singleton.mp hr]
      exact List.cons_ne_nil n []
    · exact ih hrest
  | dir n inner rest _ ih =>
    rcases List.mem_cons.mp hg with rfl | hrest
    · rcases List.mem_cons.mp hr with rfl | hbelow
      · exact List.cons_ne_nil n []
      · obtain ⟨below, -, rfl⟩ := List.mem_map.mp hbelow
        exact List.cons_ne_nil n _
    · exact ih hrest

theorem names_of_mem_rows {f : Folder} {r : List Name × Node} (h : r ∈ f.rows) : r.1 ≠ [] := by
  unfold rows inOrder at h
  obtain ⟨g, hg, hr⟩ := List.mem_flatMap.mp h
  exact names_of_mem_groups (List.mem_mergeSort.mp hg) hr

end Folder

/-- Every listed file is shown with a slash. -/
theorem FileTree.slash_mem_of_mem_files {t : FileTree} {dir p : Path} (h : p ∈ t.files dir) :
    '/' ∈ p.display.toList := by
  obtain ⟨r, hr, rfl⟩ := List.mem_map.mp (List.mem_filter.mp h).1
  have hdir : dir.bytes ≠ [] := by
    intro hempty
    have hnone : t.folder? dir = none := by
      have hplace : t.place .follow dir = .error .notFound := by
        rw [place, hempty]
        rfl
      rw [folder?, look, hplace]
    rw [hnone, Option.getD_none, Folder.rows_nil] at hr
    cases hr
  exact Path.slash_mem_display (Path.slash_mem_descend hdir (Folder.names_of_mem_rows hr))

end PageFuzz
