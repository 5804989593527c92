/-!
# Sets of names

A set of names is a list of them in strict order, so that equal sets are equal lists.
-/

namespace PageFuzz.Coverage

/-- put a name at its place, unless it is there -/
def insertName (name : String) : List String → List String
  | [] => [name]
  | n :: ns =>
    if name < n then name :: n :: ns else if name = n then n :: ns else n :: insertName name ns

theorem mem_insertName {x name : String} {ns : List String} :
    x ∈ insertName name ns ↔ x = name ∨ x ∈ ns := by
  induction ns with
  | nil => simp [insertName]
  | cons n ns ih =>
    simp only [insertName]
    split
    · simp
    · split
      · next h => subst h; simp
      · simp only [List.mem_cons, ih]
        constructor
        · rintro (h | h | h) <;> simp [h]
        · rintro (h | h | h) <;> simp [h]

theorem sorted_insertName (name : String) {ns : List String} (h : ns.Pairwise (· < ·)) :
    (insertName name ns).Pairwise (· < ·) := by
  induction ns with
  | nil => simp [insertName]
  | cons n ns ih =>
    obtain ⟨hn, hs⟩ := List.pairwise_cons.mp h
    simp only [insertName]
    split
    · next hlt =>
      refine List.pairwise_cons.mpr ⟨fun m hm => ?_, h⟩
      rcases List.mem_cons.mp hm with rfl | hm
      · exact hlt
      · exact String.lt_trans hlt (hn m hm)
    · split
      · exact h
      · next hnlt hne =>
        refine List.pairwise_cons.mpr ⟨fun m hm => ?_, ih hs⟩
        rcases mem_insertName.mp hm with rfl | hm
        · exact Decidable.byContradiction fun hmn =>
            hne (String.le_antisymm (String.not_lt.mp hmn) (String.not_lt.mp hnlt))
        · exact hn m hm

structure NameSet where
  names : List String
  sorted : names.Pairwise (· < ·)
deriving DecidableEq, Repr

namespace NameSet

def empty : NameSet := ⟨[], .nil⟩

def insert (name : String) (s : NameSet) : NameSet :=
  ⟨insertName name s.names, sorted_insertName name s.sorted⟩

/-- add all names of a list -/
def insertAll (ns : List String) (s : NameSet) : NameSet := ns.foldl (fun s n => s.insert n) s

def ofList (ns : List String) : NameSet := empty.insertAll ns

def contains (s : NameSet) (name : String) : Bool := s.names.contains name

def size (s : NameSet) : Nat := s.names.length

def isEmpty (s : NameSet) : Bool := s.names.isEmpty

def filter (p : String → Bool) (s : NameSet) : NameSet :=
  ⟨s.names.filter p, s.sorted.filter p⟩

theorem mem_insert {x name : String} {s : NameSet} :
    x ∈ (s.insert name).names ↔ x = name ∨ x ∈ s.names := mem_insertName

theorem mem_insertAll {x : String} {ns : List String} {s : NameSet} :
    x ∈ (s.insertAll ns).names ↔ x ∈ ns ∨ x ∈ s.names := by
  induction ns generalizing s with
  | nil => simp [insertAll]
  | cons n ns ih =>
    have : s.insertAll (n :: ns) = (s.insert n).insertAll ns := rfl
    rw [this, ih, mem_insert, List.mem_cons]
    constructor
    · rintro (h | h | h) <;> simp [h]
    · rintro ((h | h) | h) <;> simp [h]

theorem mem_ofList {x : String} {ns : List String} : x ∈ (ofList ns).names ↔ x ∈ ns := by
  simp [ofList, mem_insertAll, empty]

end NameSet

end PageFuzz.Coverage
