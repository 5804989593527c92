/-!
# Markup trees

A page as a tree of nodes.  A node has a kind, a text of its own if it is a leaf, and children;
nodes that are mere punctuation are not named.  `preorder` lists a node and all that is below it,
each before what is below itself.
-/

namespace PageFuzz.Markup

inductive Kind where
  | document
  | doctype
  | comment
  | element
  | text
  | entity
  | rawText
  | startTag
  | selfClosingTag
  | endTag
  /-- an end tag that ends no element -/
  | strayEndTag
  | tagName
  /-- the name in an end tag that ends no element -/
  | strayName
  | attribute
  | attributeName
  | attributeValue
  | quotedValue
  | punctuation
  | error
deriving DecidableEq, Repr

inductive Node where
  | mk (kind : Kind) (isNamed : Bool) (text : String) (children : List Node)

namespace Node

def kind : Node → Kind
  | mk k _ _ _ => k

def isNamed : Node → Bool
  | mk _ n _ _ => n

def text : Node → String
  | mk _ _ t _ => t

def children : Node → List Node
  | mk _ _ _ cs => cs

def namedChildren (n : Node) : List Node := n.children.filter isNamed

/-- a node without children; punctuation is not named -/
def leaf (kind : Kind) (text : String) : Node := mk kind (kind != .punctuation) text []

/-- a named node with children -/
def branch (kind : Kind) (children : List Node) : Node := mk kind true "" children

mutual

/-- the number of nodes of a tree -/
def size : Node → Nat
  | mk _ _ _ cs => 1 + sizeAll cs

/-- the number of nodes of some trees -/
def sizeAll : List Node → Nat
  | [] => 0
  | n :: ns => n.size + sizeAll ns

end

mutual

/-- a node and all nodes below it -/
def preorder : Node → List Node
  | mk k n t cs => mk k n t cs :: preorderAll cs

def preorderAll : List Node → List Node
  | [] => []
  | n :: ns => n.preorder ++ preorderAll ns

end

theorem sizeAll_nil : sizeAll [] = 0 := rfl
theorem sizeAll_cons (n : Node) (ns : List Node) : sizeAll (n :: ns) = n.size + sizeAll ns := rfl
theorem size_eq (n : Node) : n.size = 1 + sizeAll n.children := by
  cases n
  rfl

end Node

end PageFuzz.Markup
