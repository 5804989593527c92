import PageFuzz.Markup.Node

/-!
# Nodes by their places

A parser tells where each node of a page starts and stops, in bytes.  The text of a node is what
stands between; bytes that are no text, because they cut a character in two, stand for nothing.
-/

namespace PageFuzz.Markup

/-- the text between two bytes of a page, if what stands there is a text -/
def textBetween? (page : String) (start stop : Nat) : Option String :=
  String.fromUTF8? (page.toByteArray.extract start stop)

/-- a node, by the bytes that it starts and stops at; one that is missing stops where it starts -/
inductive Located where
  | mk (kind : Kind) (isNamed : Bool) (start stop : Nat) (children : List Located)

namespace Located

def kind : Located → Kind
  | mk k _ _ _ _ => k

def isNamed : Located → Bool
  | mk _ n _ _ _ => n

def start : Located → Nat
  | mk _ _ start _ _ => start

def stop : Located → Nat
  | mk _ _ _ stop _ => stop

def children : Located → List Located
  | mk _ _ _ _ cs => cs

def namedChildren (n : Located) : List Located := n.children.filter isNamed

def text? (page : String) (n : Located) : Option String := textBetween? page n.start n.stop

mutual

/-- a node and all nodes below it -/
def preorder : Located → List Located
  | mk k named start stop cs => mk k named start stop cs :: preorderAll cs

def preorderAll : List Located → List Located
  | [] => []
  | n :: ns => n.preorder ++ preorderAll ns

end

mutual

/-- a tree of nodes with the texts that they have in a page -/
def inPage (page : String) : Located → Node
  | mk k named start stop cs =>
    .mk k named ((textBetween? page start stop).getD "") (inPageAll page cs)

def inPageAll (page : String) : List Located → List Node
  | [] => []
  | n :: ns => n.inPage page :: inPageAll page ns

end

theorem inPageAll_eq (page : String) (ns : List Located) :
    inPageAll page ns = ns.map (inPage page) := by
  induction ns with
  | nil => rfl
  | cons n ns ih => rw [inPageAll, List.map_cons, ih]

theorem kind_inPage (page : String) (n : Located) : (n.inPage page).kind = n.kind := by
  cases n
  rfl

theorem isNamed_inPage (page : String) (n : Located) : (n.inPage page).isNamed = n.isNamed := by
  cases n
  rfl

theorem text_inPage (page : String) (n : Located) :
    (n.inPage page).text = (n.text? page).getD "" := by
  cases n
  rfl

theorem children_inPage (page : String) (n : Located) :
    (n.inPage page).children = n.children.map (inPage page) := by
  cases n
  exact inPageAll_eq page _

theorem namedChildren_inPage (page : String) (n : Located) :
    (n.inPage page).namedChildren = n.namedChildren.map (inPage page) := by
  have hnamed : Node.isNamed ∘ inPage page = isNamed := funext (isNamed_inPage page)
  rw [Node.namedChildren, children_inPage, List.filter_map, hnamed, namedChildren]

mutual

theorem preorder_inPage (page : String) (n : Located) :
    (n.inPage page).preorder = n.preorder.map (inPage page) := by
  match n with
  | mk k named start stop cs =>
    rw [inPage, Node.preorder, preorderAll_inPage, preorder, List.map_cons, inPage]

theorem preorderAll_inPage (page : String) (ns : List Located) :
    Node.preorderAll (inPageAll page ns) = (preorderAll ns).map (inPage page) := by
  match ns with
  | [] => rfl
  | n :: ns =>
    rw [inPageAll, Node.preorderAll, preorder_inPage, preorderAll_inPage, preorderAll,
      List.map_append]

end

end Located

end PageFuzz.Markup
