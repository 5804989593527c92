import PageFuzz.Markup.Node
import PageFuzz.Markup.Search.Reading

/-!
# Reading a page

`read` turns any text into a tree of nodes.  It shows what is seen of the best syntax tree: where
a tree is unseen, the nodes below it stand in its place (`nodesOf`).  Pages can be nested to any
depth, and so the nodes are built with a list of what is still to do; `nodes_eq` says that this
makes no difference.
-/

namespace PageFuzz.Markup

def Token.kind : Token → Kind
  | .attributeName => .attributeName
  | .attributeValue | .quoted _ => .attributeValue
  | .entity => .entity
  | .text => .text
  | .startName | .scriptName | .styleName | .endName => .tagName
  | .strayName => .strayName
  | .rawText => .rawText
  | .comment => .comment
  | _ => .punctuation

def Phrase.kind : Phrase → Kind
  | .document | .nodes => .document
  | .doctype => .doctype
  | .element | .scriptElement | .styleElement => .element
  | .startTag | .scriptStartTag | .styleStartTag => .startTag
  | .selfClosingTag => .selfClosingTag
  | .endTag => .endTag
  | .strayEndTag => .strayEndTag
  | .attribute | .attributes => .attribute
  | .quotedValue => .quotedValue

def Symbol.kind : Symbol → Kind
  | .token t => t.kind
  | .phrase p => p.kind
  | .error | .skipped => .error

namespace Tree

def kind (t : Tree) : Kind := t.symbol.kind

/-- the node of a tree without children -/
def leafNode (t : Tree) : Node := .leaf t.kind (t.facts.start.textTo t.stop)

mutual

/-- what is seen of a tree: one node, or the nodes below it -/
def nodesOf : Tree → List Node
  | mk f cs =>
    if !(mk f cs).isVisible then nodesOfAll cs
    else if cs.isEmpty then [(mk f cs).leafNode]
    else [.branch (mk f cs).kind (nodesOfAll cs)]

def nodesOfAll : List Tree → List Node
  | [] => []
  | t :: ts => t.nodesOf ++ nodesOfAll ts

end

mutual

/-- a measure of what is to do for a tree -/
def weight : Tree → Nat
  | mk _ cs => 2 + weightAll cs

def weightAll : List Tree → Nat
  | [] => 0
  | t :: ts => t.weight + weightAll ts

end

/-! ## building nodes -/

inductive Task where
  /-- add what is seen of a tree -/
  | add (t : Tree)
  /-- all children of a node have been added -/
  | close (k : Kind)

def Task.weight : Task → Nat
  | add t => t.weight
  | close _ => 1

def tasksWeight : List Task → Nat
  | [] => 0
  | t :: ts => t.weight + tasksWeight ts

/-- add what is seen of some trees before all else -/
def addAll (cs : List Tree) (ts : List Task) : List Task := cs.map .add ++ ts

theorem tasksWeight_addAll (cs : List Tree) (ts : List Task) :
    tasksWeight (addAll cs ts) = weightAll cs + tasksWeight ts := by
  induction cs with
  | nil => simp [addAll, weightAll]
  | cons c cs ih =>
    simp only [addAll, List.map_cons, List.cons_append, tasksWeight, Task.weight,
      weightAll] at ih ⊢
    omega

/-- Do what is to do.  `nodes` are the nodes so far in the node that is being built, the last one
first, and `above` those in the nodes around it. -/
def nodesFrom : List Task → (nodes : List Node) → (above : List (List Node)) → List Node
  | [], nodes, _ => nodes.reverse
  | .close k :: ts, nodes, [] => nodesFrom ts [.branch k nodes.reverse] []
  | .close k :: ts, nodes, up :: above => nodesFrom ts (.branch k nodes.reverse :: up) above
  | .add (mk f cs) :: ts, nodes, above =>
    if !(mk f cs).isVisible then nodesFrom (addAll cs ts) nodes above
    else if cs.isEmpty then nodesFrom ts ((mk f cs).leafNode :: nodes) above
    else nodesFrom (addAll cs (.close (mk f cs).kind :: ts)) [] (nodes :: above)
termination_by ts => tasksWeight ts
decreasing_by
  · simp [tasksWeight, Task.weight]
  · simp [tasksWeight, Task.weight]
  · rw [tasksWeight_addAll]
    simp only [tasksWeight, Task.weight, weight]
    omega
  · simp only [tasksWeight, Task.weight, weight]
    omega
  · rw [tasksWeight_addAll]
    simp only [tasksWeight, Task.weight, weight]
    omega

theorem nodesFrom_addAll (cs : List Tree) (ts : List Task) (nodes : List Node)
    (above : List (List Node)) :
    nodesFrom (addAll cs ts) nodes above =
      nodesFrom ts ((nodesOfAll cs).reverse ++ nodes) above := by
  match cs with
  | [] => simp [addAll, nodesOfAll]
  | mk f ds :: cs =>
    rw [addAll, List.map_cons, List.cons_append, nodesFrom, nodesOfAll, nodesOf, ← addAll]
    split
    · rw [nodesFrom_addAll ds, nodesFrom_addAll cs]
      simp
    · split
      · rw [nodesFrom_addAll cs]
        simp
      · rw [nodesFrom_addAll ds, nodesFrom, nodesFrom_addAll cs]
        simp
termination_by weightAll cs
decreasing_by all_goals simp only [weightAll, weight]; omega

/-- the nodes of a tree -/
def nodes (t : Tree) : List Node := nodesFrom [.add t] [] []

theorem nodes_eq (t : Tree) : t.nodes = t.nodesOf := by
  have h := nodesFrom_addAll [t] [] [] []
  simp only [addAll, List.map_cons, List.map_nil, List.cons_append, List.nil_append] at h
  simp [nodes, h, nodesFrom, nodesOfAll]

end Tree

/-- a text as a tree of nodes -/
def read (source : String) : Node :=
  match (Search.bestOf source).nodes with
  | [n] => n
  | ns => .branch .document ns

end PageFuzz.Markup
