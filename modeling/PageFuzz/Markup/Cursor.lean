import PageFuzz.Markup.Node

/-!
# Walking a tree with a cursor

A cursor stands on one node of a tree and knows what lies to the right of it and of each node
above it.  It moves to the first child, to the next brother or to the parent.  `fold` drives it
over the whole tree: down where there is a child, else to the next brother of the nearest node
that has one.  Each move leaves less of the tree ahead, and so the walk ends.
-/

namespace PageFuzz.Markup

structure Cursor where
  node : Node
  /-- the brothers to the right -/
  rest : List Node
  /-- the nodes above, the nearest first, each with its brothers to the right -/
  above : List (Node × List Node)

namespace Cursor

def ofRoot (n : Node) : Cursor := ⟨n, [], []⟩

def firstChild? (c : Cursor) : Option Cursor :=
  match c.node.children with
  | [] => none
  | n :: ns => some ⟨n, ns, (c.node, c.rest) :: c.above⟩

def nextSibling? (c : Cursor) : Option Cursor :=
  match c.rest with
  | [] => none
  | n :: ns => some { c with node := n, rest := ns }

def parent? (c : Cursor) : Option Cursor :=
  match c.above with
  | [] => none
  | (n, ns) :: above => some ⟨n, ns, above⟩

/-- the next brother of the node, or of the nearest node above that has one -/
def leave (c : Cursor) : Option Cursor :=
  match c.nextSibling? with
  | some c' => some c'
  | none =>
    match _h : c.parent? with
    | some p => p.leave
    | none => none
termination_by c.above.length
decreasing_by
  obtain ⟨node, rest, above⟩ := c
  cases above with
  | nil => cases _h
  | cons a above =>
    cases _h
    simp

/-- how many nodes lie to the right of the nodes above -/
def aheadAbove : List (Node × List Node) → Nat
  | [] => 0
  | (_, ns) :: above => Node.sizeAll ns + aheadAbove above

/-- how many nodes a walk still comes to, the cursor's own included -/
def ahead (c : Cursor) : Nat := c.node.size + Node.sizeAll c.rest + aheadAbove c.above

theorem ahead_firstChild {c c' : Cursor} (h : c.firstChild? = some c') : c'.ahead < c.ahead := by
  obtain ⟨⟨k, named, text, cs⟩, rest, above⟩ := c
  cases cs with
  | nil => cases h
  | cons n ns =>
    cases h
    simp only [ahead, aheadAbove, Node.size_eq (.mk k named text (n :: ns)), Node.children,
      Node.sizeAll_cons]
    omega

/-- leaving a node keeps all that lies ahead but that node -/
theorem ahead_leave {c c' : Cursor} (h : c.leave = some c') :
    c'.ahead + c.node.size = c.ahead := by
  obtain ⟨node, rest, above⟩ := c
  induction above generalizing node rest with
  | nil =>
    rw [leave] at h
    cases rest with
    | nil => cases h
    | cons n ns =>
      cases h
      simp only [ahead, Node.sizeAll_cons]
      omega
  | cons a above ih =>
    rw [leave] at h
    cases rest with
    | nil =>
      have := ih a.1 a.2 h
      simp only [ahead, aheadAbove, Node.sizeAll_nil] at this ⊢
      omega
    | cons n ns =>
      cases h
      simp only [ahead, Node.sizeAll_cons]
      omega

/-- Visit the node of the cursor and every node that a walk from there comes to. -/
def foldFrom {α : Type} (visit : α → Node → α) (a : α) (c : Cursor) : α :=
  let a := visit a c.node
  match _h : c.firstChild? with
  | some c' => foldFrom visit a c'
  | none =>
    match _h' : c.leave with
    | some c' => foldFrom visit a c'
    | none => a
termination_by c.ahead
decreasing_by
  · exact ahead_firstChild _h
  · have := ahead_leave _h'
    have := c.node.size_eq
    omega

end Cursor

/-- visit every node of a tree, by a cursor from its root -/
def Node.fold {α : Type} (visit : α → Node → α) (a : α) (n : Node) : α :=
  Cursor.foldFrom visit a (.ofRoot n)

end PageFuzz.Markup
