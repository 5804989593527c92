import Mathlib
import PageFuzz.Coverage.Observation

/-!
# What is observed in pages

An observation is a count and two sets, so it does not matter in which order pages are observed.

* `NameSet.ext_mem`           equal sets of names are equal;
* `Observation.ofPages_perm`  the order of pages makes no difference;
* `Observation.pages_ofPages` and each counts once.
-/

namespace PageFuzz.Coverage

/-- Equal sets are equal lists, because a set is in strict order. -/
theorem NameSet.ext_mem {a b : NameSet} (h : ∀ x, x ∈ a.names ↔ x ∈ b.names) : a = b := by
  have hnames : a.names = b.names := a.sorted.eq_of_mem_iff b.sorted h
  cases a
  cases b
  cases hnames
  rfl

theorem NameSet.insertAll_comm (s : NameSet) (a b : List String) :
    (s.insertAll a).insertAll b = (s.insertAll b).insertAll a := by
  refine NameSet.ext_mem fun x => ?_
  rw [mem_insertAll, mem_insertAll, mem_insertAll, mem_insertAll]
  exact or_left_comm

namespace Observation

theorem absorb_comm (o : Observation) (a b : PageNames) :
    (o.absorb a).absorb b = (o.absorb b).absorb a := by
  unfold absorb
  rw [NameSet.insertAll_comm, NameSet.insertAll_comm o.attributes]

/-- Pages are observed in any order. -/
theorem ofPages_perm {a b : List PageNames} (h : a.Perm b) : ofPages a = ofPages b :=
  h.foldl_eq' (fun x _ y _ o => absorb_comm o x y) empty

theorem pages_foldl_absorb (pages : List PageNames) (o : Observation) :
    (pages.foldl absorb o).pages = o.pages + pages.length := by
  induction pages generalizing o with
  | nil => rfl
  | cons page pages ih =>
    rw [List.foldl_cons, ih, List.length_cons, absorb, Nat.add_assoc, Nat.add_comm 1]

theorem pages_ofPages (pages : List PageNames) : (ofPages pages).pages = pages.length := by
  rw [ofPages, pages_foldl_absorb, empty, Nat.zero_add]

end Observation

end PageFuzz.Coverage
