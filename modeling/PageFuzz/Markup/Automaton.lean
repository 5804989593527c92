import PageFuzz.Markup.Token.Plain

/-!
# The automaton of the grammar

The phrases of markup and the states in which they are read.  A state says which tokens and
phrases may come next and to which state they lead, and which phrase is complete, if one is.
Nodes stand either in the page itself or in an element, and attributes either in a plain tag,
which may close itself, or in the start tag of a script or a style, which may not.
-/

namespace PageFuzz.Markup

inductive Phrase where
  | document
  | doctype
  | element
  | scriptElement
  | styleElement
  | startTag
  | scriptStartTag
  | styleStartTag
  | selfClosingTag
  | endTag
  | strayEndTag
  | attribute
  | quotedValue
  /-- nodes side by side -/
  | nodes
  /-- attributes side by side -/
  | attributes
deriving DecidableEq, Repr

namespace Phrase

/-- whether a phrase is seen in a tree -/
def isVisible : Phrase → Bool
  | nodes | attributes => false
  | _ => true

/-- whether a phrase may stand among the nodes of a page or an element -/
def isNode : Phrase → Bool
  | doctype | element | scriptElement | styleElement | strayEndTag | nodes => true
  | _ => false

end Phrase

/-- where a node stands -/
inductive Level where
  | page
  | element
deriving DecidableEq, Repr

/-- what an attribute stands in -/
inductive TagSort where
  | plain
  | raw
deriving DecidableEq, Repr

inductive RawSort where
  | script
  | style
deriving DecidableEq, Repr

def RawSort.element : RawSort → Phrase
  | script => .scriptElement
  | style => .styleElement

def RawSort.startTag : RawSort → Phrase
  | script => .scriptStartTag
  | style => .styleStartTag

/-- the surroundings of a phrase, which tell what may follow it -/
inductive Scope where
  | nodes (l : Level)
  | attributes (t : TagSort)
  /-- at the start of the content of a script or a style -/
  | rawContent
deriving DecidableEq, Repr

/-- whether a token may follow a phrase -/
def Scope.admitsNext : Scope → Token → Bool
  | nodes l, t =>
    match t with
    | .bang | .angle | .slash | .entity | .text => true
    | .endOfText => l == .page
    | .impliedEnd => l == .element
    | _ => false
  | attributes s, t =>
    match t with
    | .close | .attributeName => true
    | .selfClose => s == .plain
    | _ => false
  | rawContent, t => t == .rawText || t == .slash

inductive State where
  /-- nothing fits -/
  | error
  | start
  /-- after the nodes of the page -/
  | page
  /-- the page is complete -/
  | finished
  /-- after two groups of nodes, which make one -/
  | nodesTwice (l : Level)
  /-- after the start tag of an element -/
  | opened (l : Level)
  /-- after nodes in an element -/
  | content (l : Level)
  /-- after the `<` of a tag -/
  | angle (l : Level)
  /-- after the name of a plain tag -/
  | tagHead (l : Level)
  /-- after attributes of a plain tag -/
  | tagAttributes (l : Level)
  | rawHead (r : RawSort)
  | rawAttributes (r : RawSort)
  | attributesTwice (t : TagSort)
  /-- after the name of an attribute -/
  | named (t : TagSort)
  /-- after the equals sign of an attribute -/
  | assigned (t : TagSort)
  | quoteOpen (t : TagSort) (q : Quote)
  | quoteFull (t : TagSort) (q : Quote)
  /-- after `<!` -/
  | bang (l : Level)
  | doctypeNamed (l : Level)
  | doctypeFull (l : Level)
  /-- after a `</` that may end the element around it -/
  | closing (l : Level)
  | endNamed (l : Level)
  /-- after a `</` that ends no element -/
  | stray (l : Level)
  | strayNamed (l : Level)
  /-- after the start tag of a script or a style -/
  | rawOpened (r : RawSort) (l : Level)
  | rawFull (r : RawSort) (l : Level)
  /-- after the `</` that ends a script or a style -/
  | rawClosing (l : Level)
  /-- a phrase of a number of parts is complete -/
  | complete (p : Phrase) (parts : Nat) (s : Scope)
deriving DecidableEq, Repr

namespace State

/-- what starts a node -/
def nodeStart (l : Level) (after : State) : Token → Option State
  | .bang => some (bang l)
  | .angle => some (angle l)
  | .entity | .text => some after
  | _ => none

/-- the state after a token, where the token may stand -/
def next (s : State) (t : Token) : Option State :=
  match s, t with
  | start, .slash | page, .slash | nodesTwice .page, .slash => some (stray .page)
  | start, t => nodeStart .page page t
  | page, t => nodeStart .page (nodesTwice .page) t
  | nodesTwice .page, t => nodeStart .page (nodesTwice .page) t
  | nodesTwice .element, .slash => some (stray .element)
  | nodesTwice .element, t => nodeStart .element (nodesTwice .element) t
  | opened l, .impliedEnd => some (complete .element 2 (.nodes l))
  | content l, .impliedEnd => some (complete .element 3 (.nodes l))
  | opened l, .slash | content l, .slash => some (closing l)
  | opened l, t => nodeStart .element (content l) t
  | content _, t => nodeStart .element (nodesTwice .element) t
  | angle l, .startName => some (tagHead l)
  | angle _, .scriptName => some (rawHead .script)
  | angle _, .styleName => some (rawHead .style)
  | tagHead _, .close => some (complete .startTag 3 (.nodes .element))
  | tagAttributes _, .close => some (complete .startTag 4 (.nodes .element))
  | tagHead l, .selfClose => some (complete .selfClosingTag 3 (.nodes l))
  | tagAttributes l, .selfClose => some (complete .selfClosingTag 4 (.nodes l))
  | tagHead _, .attributeName | tagAttributes _, .attributeName => some (named .plain)
  | rawHead r, .close => some (complete r.startTag 3 .rawContent)
  | rawAttributes r, .close => some (complete r.startTag 4 .rawContent)
  | rawHead _, .attributeName | rawAttributes _, .attributeName => some (named .raw)
  | attributesTwice t, .attributeName => some (named t)
  | named t, .equals => some (assigned t)
  | assigned t, .attributeValue => some (complete .attribute 3 (.attributes t))
  | assigned t, .quote q => some (quoteOpen t q)
  | quoteOpen t q, .quoted r => if q == r then some (quoteFull t q) else none
  | quoteOpen t q, .quote r =>
    if q == r then some (complete .quotedValue 2 (.attributes t)) else none
  | quoteFull t q, .quote r =>
    if q == r then some (complete .quotedValue 3 (.attributes t)) else none
  | bang l, .doctypeWord => some (doctypeNamed l)
  | doctypeNamed l, .doctypeBody => some (doctypeFull l)
  | doctypeFull l, .close => some (complete .doctype 4 (.nodes l))
  | closing l, .endName | rawClosing l, .endName => some (endNamed l)
  | closing _, .strayName => some (strayNamed .element)
  | endNamed l, .close => some (complete .endTag 3 (.nodes l))
  | stray l, .strayName => some (strayNamed l)
  | strayNamed l, .close => some (complete .strayEndTag 3 (.nodes l))
  | rawOpened r l, .rawText => some (rawFull r l)
  | rawOpened _ l, .slash | rawFull _ l, .slash => some (rawClosing l)
  | _, _ => none

/-- the state after a node, or after a tag that starts one; `after` is the state after a node -/
def nodeGoto (l : Level) (after : State) (p : Phrase) : Option State :=
  match p with
  | .startTag => some (opened l)
  | .scriptStartTag => some (rawOpened .script l)
  | .styleStartTag => some (rawOpened .style l)
  | .selfClosingTag => some (complete .element 1 (.nodes l))
  | p => if p.isNode then some after else none

/-- the state after a phrase, where the phrase may stand -/
def goto (s : State) (p : Phrase) : Option State :=
  match s with
  | start => if p = .document then some finished else nodeGoto .page page p
  | page => nodeGoto .page (nodesTwice .page) p
  | nodesTwice l => nodeGoto l (nodesTwice l) p
  | opened l =>
    if p = .endTag then some (complete .element 2 (.nodes l))
    else nodeGoto .element (content l) p
  | content l =>
    if p = .endTag then some (complete .element 3 (.nodes l))
    else nodeGoto .element (nodesTwice .element) p
  | tagHead l =>
    if p = .attribute ∨ p = .attributes then some (tagAttributes l) else none
  | rawHead r =>
    if p = .attribute ∨ p = .attributes then some (rawAttributes r) else none
  | tagAttributes _ =>
    if p = .attribute ∨ p = .attributes then some (attributesTwice .plain) else none
  | rawAttributes _ =>
    if p = .attribute ∨ p = .attributes then some (attributesTwice .raw) else none
  | attributesTwice t =>
    if p = .attribute ∨ p = .attributes then some (attributesTwice t) else none
  | assigned t => if p = .quotedValue then some (complete .attribute 3 (.attributes t)) else none
  | rawOpened r l => if p = .endTag then some (complete r.element 2 (.nodes l)) else none
  | rawFull r l => if p = .endTag then some (complete r.element 3 (.nodes l)) else none
  | _ => none

/-- the phrase that is complete where a token follows, and the number of its parts -/
def completed? (s : State) (t : Token) : Option (Phrase × Nat) :=
  let given (p : Phrase) (parts : Nat) (sc : Scope) : Option (Phrase × Nat) :=
    if sc.admitsNext t then some (p, parts) else none
  match s with
  | start => if t = .endOfText then some (.document, 0) else none
  | page => if t = .endOfText then some (.document, 1) else none
  | nodesTwice l => given .nodes 2 (.nodes l)
  | attributesTwice a => given .attributes 2 (.attributes a)
  | named a => given .attribute 1 (.attributes a)
  | complete p parts sc => given p parts sc
  | _ => none

/-- the phrase that is complete in a state where some token follows, whichever it is -/
def completion? : State → Option (Phrase × Nat)
  | nodesTwice _ => some (.nodes, 2)
  | attributesTwice _ => some (.attributes, 2)
  | named _ => some (.attribute, 1)
  | complete p parts _ => some (p, parts)
  | _ => none

/-- whether a token is told well enough to be passed over where nothing fits -/
def isRecoverable : Token → Bool
  | .doctypeBody | .attributeName | .attributeValue | .quoted _ | .text => false
  | _ => true

/-- whether a token may come next; a comment always may -/
def expects (s : State) (t : Token) : Bool :=
  t == .comment ||
  match s with
  | error => isRecoverable t
  | finished => t == .endOfText
  | s => (s.next t).isSome || (s.completed? t).isSome

/-- whether a token is taken as it is, without a phrase that it completes first -/
def takes (s : State) (t : Token) : Bool :=
  if s = error then isRecoverable t && t != .comment
  else (s.next t).isSome && (s.completed? t).isNone

/-- which tokens are looked for by their characters -/
def mode : State → Mode
  | start | page | nodesTwice _ | opened _ | content _ | complete _ _ (.nodes _) => .nodes
  | tagHead _ | tagAttributes _ | rawHead _ | rawAttributes _ | attributesTwice _ | named _
  | complete _ _ (.attributes _) => .tag
  | assigned _ => .value
  | quoteOpen _ q => .quoted q
  | doctypeNamed _ => .doctype
  | _ => .general

end State

end PageFuzz.Markup
