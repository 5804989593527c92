import Mathlib.Tactic.Common

/-!
# Pieces of a list

A list that is cut at some of its members falls into pieces: each member is in a piece or is a
place of a cut, and no piece has a place of a cut in it.  Put together again, the pieces are the list
without the places of the cuts, and there is one piece more than there are cuts.
-/

namespace PageFuzz.Text

variable {α : Type} {p : α → Bool}

/-- The pieces of a longer list: a new first piece, or a longer one. -/
theorem splitOnP_cons_cases (p : α → Bool) (x : α) (xs : List α) :
    (p x = true ∧ (x :: xs).splitOnP p = [] :: xs.splitOnP p) ∨
      (p x = false ∧ ∃ q qs, xs.splitOnP p = q :: qs ∧ (x :: xs).splitOnP p = (x :: q) :: qs) := by
  rw [List.splitOnP_cons_eq_if_modifyHead]
  cases hp : p x with
  | true => exact .inl ⟨rfl, rfl⟩
  | false =>
    obtain ⟨q, qs, hq⟩ := List.exists_cons_of_ne_nil (List.splitOnP_ne_nil p xs)
    refine .inr ⟨rfl, q, qs, hq, ?_⟩
    rw [hq, if_neg Bool.false_ne_true, List.modifyHead_cons]

/-- The pieces together are what was not cut out. -/
theorem flatten_splitOnP (p : α → Bool) (xs : List α) :
    (xs.splitOnP p).flatten = xs.filter fun x => !p x := by
  induction xs with
  | nil => rfl
  | cons x xs ih =>
    rcases splitOnP_cons_cases p x xs with ⟨hx, hsplit⟩ | ⟨hx, q, qs, hq, hsplit⟩
    · rw [hsplit, List.flatten_cons, List.nil_append, ih, List.filter_cons_of_neg]
      simp [hx]
    · rw [hq, List.flatten_cons] at ih
      rw [hsplit, List.flatten_cons, List.cons_append, ih, List.filter_cons_of_pos]
      simp [hx]

theorem length_splitOnP (p : α → Bool) (xs : List α) :
    (xs.splitOnP p).length = xs.countP p + 1 := by
  induction xs with
  | nil => rfl
  | cons x xs ih =>
    rcases splitOnP_cons_cases p x xs with ⟨hx, hsplit⟩ | ⟨hx, q, qs, hq, hsplit⟩
    · rw [hsplit, List.length_cons, ih, List.countP_cons_of_pos hx]
    · rw [hq, List.length_cons] at ih
      rw [hsplit, List.length_cons, ih, List.countP_cons_of_neg]
      simp [hx]

/-- A member is in a piece, unless it is a place of a cut. -/
theorem mem_splitOnP {xs : List α} {x : α} (hx : x ∈ xs) (hp : p x = false) :
    ∃ piece ∈ xs.splitOnP p, x ∈ piece := by
  induction xs with
  | nil => cases hx
  | cons y ys ih =>
    rcases splitOnP_cons_cases p y ys with ⟨hy, hsplit⟩ | ⟨hy, q, qs, hq, hsplit⟩
    · rcases List.mem_cons.mp hx with rfl | hmem
      · rw [hp] at hy
        cases hy
      · obtain ⟨piece, hpiece, hin⟩ := ih hmem
        rw [hsplit]
        exact ⟨piece, List.mem_cons_of_mem _ hpiece, hin⟩
    · rw [hsplit]
      rcases List.mem_cons.mp hx with rfl | hmem
      · exact ⟨x :: q, List.mem_cons_self, List.mem_cons_self⟩
      · obtain ⟨piece, hpiece, hin⟩ := ih hmem
        rw [hq] at hpiece
        rcases List.mem_cons.mp hpiece with rfl | hmore
        · exact ⟨y :: piece, List.mem_cons_self, List.mem_cons_of_mem _ hin⟩
        · exact ⟨piece, List.mem_cons_of_mem _ hmore, hin⟩

/-- Whatever is in a piece is in the list, and is no place of a cut. -/
theorem mem_and_of_mem_piece {xs piece : List α} {x : α} (hpiece : piece ∈ xs.splitOnP p)
    (hx : x ∈ piece) : x ∈ xs ∧ p x = false := by
  induction xs generalizing piece with
  | nil =>
    rw [List.splitOnP_nil, List.mem_singleton] at hpiece
    subst hpiece
    cases hx
  | cons y ys ih =>
    have hmore : ∀ {q : List α}, q ∈ ys.splitOnP p → x ∈ q → x ∈ y :: ys ∧ p x = false :=
      fun hq hin => (ih hq hin).imp_left (List.mem_cons_of_mem y)
    rcases splitOnP_cons_cases p y ys with ⟨-, hsplit⟩ | ⟨hy, q, qs, hq, hsplit⟩
    · rw [hsplit] at hpiece
      rcases List.mem_cons.mp hpiece with rfl | hrest
      · cases hx
      · exact hmore hrest hx
    · rw [hsplit] at hpiece
      rcases List.mem_cons.mp hpiece with rfl | hrest
      · rcases List.mem_cons.mp hx with rfl | hin
        · exact ⟨List.mem_cons_self, hy⟩
        · exact hmore (hq ▸ List.mem_cons_self) hin
      · exact hmore (hq ▸ List.mem_cons_of_mem _ hrest) hx

theorem mem_of_mem_piece {xs piece : List α} {x : α} (hpiece : piece ∈ xs.splitOnP p)
    (hx : x ∈ piece) : x ∈ xs := (mem_and_of_mem_piece hpiece hx).1

theorem of_mem_piece {xs piece : List α} {x : α} (hpiece : piece ∈ xs.splitOnP p)
    (hx : x ∈ piece) : p x = false := (mem_and_of_mem_piece hpiece hx).2

end PageFuzz.Text
