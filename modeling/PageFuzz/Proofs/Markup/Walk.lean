import Mathlib
import PageFuzz.Markup.Cursor

/-!
# A walk comes to every node once

The walk moves a cursor without looking at where it has been: down to the first child, or from a
node that is done with to its next brother, or else up to the parent, which is then done with too.
So each node is met twice, when the walk arrives and when it departs, and nothing more happens: the
turns of the walk are known beforehand from the tree.

* `Turn.next?`         one move of the cursor;
* `Run`                some turns of the walk, one after another;
* `Run.nodup`          a walk that ends never comes to the same turn again;
* `turns`              the turns of a walk, by recursion along the tree;
* `run_turns`          the walk takes these turns;
* `Within`             the nodes of a tree, each by the cursor that stands on it;
* `exists_walksOnce`   the walk ends, and comes to each of them once, in preorder;
* `fold_eq`            so visiting by the walk is visiting the nodes in preorder.
-/

namespace PageFuzz.Markup

/-- Where a walk stands: it has come to a node, or it is done with a node and all that is below. -/
inductive Turn where
  | arrive (c : Cursor)
  | depart (c : Cursor)

namespace Turn

/-- one move of the cursor; none if the walk is over -/
def next? : Turn → Option Turn
  | arrive c =>
    match c.firstChild? with
    | some child => some (arrive child)
    | none => some (depart c)
  | depart c =>
    match c.nextSibling? with
    | some brother => some (arrive brother)
    | none => c.parent?.map depart

/-- the cursor of a node that the walk has just come to -/
def arrived? : Turn → Option Cursor
  | arrive c => some c
  | depart _ => none

end Turn

/-! ## runs -/

/-- From a turn on the walk takes the listed turns; `after` comes next, or nothing. -/
inductive Run (after : Option Turn) : Turn → List Turn → Prop
  | last {t : Turn} (h : t.next? = after) : Run after t [t]
  | more {t t' : Turn} {ts : List Turn} (h : t.next? = some t') (later : Run after t' ts) :
    Run after t (t :: ts)

namespace Run

variable {after : Option Turn} {t t' u v : Turn} {ts us : List Turn}

theorem append (h : Run (some t') t ts) (h' : Run after t' us) : Run after t (ts ++ us) := by
  induction h with
  | last hnext => exact .more hnext h'
  | more hnext _ ih => exact .more hnext ih

/-- How a walk goes on to its end depends on where it stands. -/
theorem unique (h : Run none t ts) (h' : Run none t us) : ts = us := by
  induction h generalizing us with
  | last hnext =>
    cases h' with
    | last => rfl
    | more hnext' => exact absurd (hnext.symm.trans hnext') nofun
  | more hnext _ ih =>
    cases h' with
    | last hnext' => exact absurd (hnext'.symm.trans hnext) nofun
    | more hnext' later' =>
      obtain rfl := Option.some.inj (hnext.symm.trans hnext')
      rw [ih later']

/-- From any of its turns a walk goes on with the turns that follow. -/
theorem exists_suffix (h : Run after t ts) (hu : u ∈ ts) : ∃ us, us <:+ ts ∧ Run after u us := by
  induction h with
  | last hnext =>
    obtain rfl := List.mem_singleton.mp hu
    exact ⟨[u], List.suffix_rfl, .last hnext⟩
  | more hnext later ih =>
    rcases List.mem_cons.mp hu with rfl | hmem
    · exact ⟨_, List.suffix_rfl, .more hnext later⟩
    · obtain ⟨us, hsuffix, hrun⟩ := ih hmem
      exact ⟨us, hsuffix.trans (List.suffix_cons _ _), hrun⟩

/-- A walk that ends does not come to the same turn again: it would never end from there. -/
theorem nodup (h : Run none t ts) : ts.Nodup := by
  induction h with
  | last => exact List.nodup_singleton _
  | more hnext later ih =>
    refine List.nodup_cons.mpr ⟨fun hagain => ?_, ih⟩
    obtain ⟨us, hsuffix, hrun⟩ := later.exists_suffix hagain
    have hlength := hsuffix.length_le
    rw [hrun.unique (.more hnext later), List.length_cons] at hlength
    exact absurd hlength (Nat.not_succ_le_self _)

theorem first_mem (h : Run after t ts) : t ∈ ts := by
  cases h <;> exact List.mem_cons_self

theorem next_mem (h : Run none t ts) (hu : u ∈ ts) (hnext : u.next? = some v) : v ∈ ts := by
  obtain ⟨us, hsuffix, hrun⟩ := h.exists_suffix hu
  cases hrun with
  | last hend => exact absurd (hend.symm.trans hnext) nofun
  | more hgoes later =>
    obtain rfl := Option.some.inj (hgoes.symm.trans hnext)
    exact hsuffix.subset (List.mem_cons_of_mem _ later.first_mem)

/-- What holds of the first turn, and after a move if before, holds of all turns. -/
theorem forall_mem {P : Turn → Prop} (h : Run after t ts) (hfirst : P t)
    (hstep : ∀ {u v : Turn}, P u → u.next? = some v → P v) : ∀ u ∈ ts, P u := by
  induction h with
  | last => exact fun u hu => List.mem_singleton.mp hu ▸ hfirst
  | more hnext _ ih =>
    intro u hu
    rcases List.mem_cons.mp hu with rfl | hmem
    · exact hfirst
    · exact ih (hstep hfirst hnext) u hmem

end Run

/-! ## the turns of a tree -/

mutual

/-- the turns at a node and below it, with the brothers to its right and the nodes above it -/
def turns : Node → List Node → List (Node × List Node) → List Turn
  | .mk k named text cs, rest, above =>
    .arrive ⟨.mk k named text cs, rest, above⟩ ::
      (turnsAll cs ((.mk k named text cs, rest) :: above) ++
        [.depart ⟨.mk k named text cs, rest, above⟩])

/-- the turns at some brothers and below them -/
def turnsAll : List Node → List (Node × List Node) → List Turn
  | [], _ => []
  | n :: ns, above => turns n ns above ++ turnsAll ns above

end

/-- what comes after the last of some brothers: their parent is done with -/
def upward : List (Node × List Node) → Option Turn
  | [] => none
  | (n, rest) :: above => some (.depart ⟨n, rest, above⟩)

mutual

/-- The walk takes the turns of a node, and departs from it. -/
theorem run_turns (n : Node) (rest : List Node) (above : List (Node × List Node)) :
    Run (Turn.depart ⟨n, rest, above⟩).next? (.arrive ⟨n, rest, above⟩) (turns n rest above) := by
  match n with
  | .mk k named text [] => exact .more rfl (.last rfl)
  | .mk k named text (m :: ms) =>
    have hbelow := run_turnsAll m ms ((.mk k named text (m :: ms), rest) :: above)
    exact .more rfl (hbelow.append (.last rfl))
termination_by 2 * n.size
decreasing_by
  rw [Node.size]
  omega

theorem run_turnsAll (m : Node) (ms : List Node) (above : List (Node × List Node)) :
    Run (upward above) (.arrive ⟨m, ms, above⟩) (turnsAll (m :: ms) above) := by
  match ms with
  | [] =>
    have honly := run_turns m [] above
    have hup : (Turn.depart ⟨m, [], above⟩).next? = upward above := by
      cases above <;> rfl
    rw [turnsAll, turnsAll, List.append_nil, ← hup]
    exact honly
  | m' :: ms =>
    have hfirst := run_turns m (m' :: ms) above
    exact hfirst.append (run_turnsAll m' ms above)
termination_by 2 * Node.sizeAll (m :: ms) + 1
decreasing_by
  all_goals
    have hpos := m.size_eq
    simp only [Node.sizeAll]
    omega

end

mutual

/-- The walk arrives at each node and departs from it. -/
theorem length_turns (n : Node) (rest : List Node) (above : List (Node × List Node)) :
    (turns n rest above).length = 2 * n.size := by
  match n with
  | .mk k named text cs =>
    have hbelow := length_turnsAll cs ((.mk k named text cs, rest) :: above)
    rw [turns, Node.size, List.length_cons, List.length_append, hbelow, List.length_singleton]
    omega

theorem length_turnsAll (ns : List Node) (above : List (Node × List Node)) :
    (turnsAll ns above).length = 2 * Node.sizeAll ns := by
  match ns with
  | [] => rfl
  | n :: ns =>
    rw [turnsAll, Node.sizeAll, List.length_append, length_turns, length_turnsAll, Nat.mul_add]

end

mutual

/-- The walk arrives at the nodes in preorder. -/
theorem nodes_turns (n : Node) (rest : List Node) (above : List (Node × List Node)) :
    ((turns n rest above).filterMap Turn.arrived?).map Cursor.node = n.preorder := by
  match n with
  | .mk k named text cs =>
    have hbelow := nodes_turnsAll cs ((.mk k named text cs, rest) :: above)
    rw [turns, Node.preorder, List.filterMap_cons]
    dsimp only [Turn.arrived?]
    rw [List.filterMap_append, List.map_cons, List.map_append, hbelow]
    exact congrArg _ (List.append_nil _)

theorem nodes_turnsAll (ns : List Node) (above : List (Node × List Node)) :
    ((turnsAll ns above).filterMap Turn.arrived?).map Cursor.node = Node.preorderAll ns := by
  match ns with
  | [] => rfl
  | n :: ns =>
    rw [turnsAll, Node.preorderAll, List.filterMap_append, List.map_append, nodes_turns,
      nodes_turnsAll]

end

mutual

/-- The walk departs from every node at which it arrives. -/
theorem depart_mem_turns (n : Node) (rest : List Node) (above : List (Node × List Node))
    {c : Cursor} (h : .arrive c ∈ turns n rest above) : .depart c ∈ turns n rest above := by
  match n with
  | .mk k named text cs =>
    rw [turns] at h ⊢
    rcases List.mem_cons.mp h with hhere | hlater
    · cases hhere
      exact List.mem_cons_of_mem _ (List.mem_append_right _ List.mem_cons_self)
    · refine List.mem_cons_of_mem _ (List.mem_append_left _ (depart_mem_turnsAll cs _ ?_))
      refine (List.mem_append.mp hlater).resolve_right fun hlast => ?_
      cases List.mem_singleton.mp hlast

theorem depart_mem_turnsAll (ns : List Node) (above : List (Node × List Node))
    {c : Cursor} (h : .arrive c ∈ turnsAll ns above) : .depart c ∈ turnsAll ns above := by
  match ns with
  | [] => cases h
  | n :: ns =>
    rw [turnsAll] at h ⊢
    rcases List.mem_append.mp h with hfirst | hrest
    · exact List.mem_append_left _ (depart_mem_turns n ns above hfirst)
    · exact List.mem_append_right _ (depart_mem_turnsAll ns above hrest)

end

/-! ## the nodes of a tree -/

namespace Cursor

/-- The nodes of a tree, each by the cursor that stands on it: the root, the first child of a node
with children, and the next brother of a node that has one. -/
inductive Spans (root : Cursor) : Cursor → Prop
  | root : Spans root root
  | child {c c' : Cursor} (h : Spans root c) (hmove : c.firstChild? = some c') : Spans root c'
  | brother {c c' : Cursor} (h : Spans root c) (hmove : c.nextSibling? = some c') : Spans root c'

theorem Spans.parent {n : Node} {c p : Cursor} (h : (ofRoot n).Spans c)
    (hp : c.parent? = some p) : (ofRoot n).Spans p := by
  induction h with
  | root => cases hp
  | @child c c' h hmove ih =>
    -- the parent of a first child is the node that the cursor came from
    obtain ⟨node, rest, above⟩ := c
    unfold firstChild? at hmove
    split at hmove
    · cases hmove
    · cases hmove
      cases hp
      exact h
  | @brother c c' h hmove ih =>
    obtain ⟨node, rest, above⟩ := c
    unfold nextSibling? at hmove
    split at hmove
    · cases hmove
    · cases hmove
      exact ih hp

end Cursor

/-- the cursor that a turn is about -/
def Turn.cursor : Turn → Cursor
  | arrive c => c
  | depart c => c

/-- No move leaves the tree. -/
theorem Turn.spans_next {n : Node} {t t' : Turn} (h : (Cursor.ofRoot n).Spans t.cursor)
    (hnext : t.next? = some t') : (Cursor.ofRoot n).Spans t'.cursor := by
  cases t with
  | arrive c =>
    unfold next? at hnext
    dsimp only at hnext
    split at hnext
    · next child hmove =>
      cases hnext
      exact .child h hmove
    · cases hnext
      exact h
  | depart c =>
    unfold next? at hnext
    dsimp only at hnext
    split at hnext
    · next brother hmove =>
      cases hnext
      exact .brother h hmove
    · obtain ⟨p, hp, rfl⟩ := Option.map_eq_some_iff.mp hnext
      exact Cursor.Spans.parent h hp

/-! ## the whole walk -/

/-- the nodes at which a walk arrives, each by its cursor -/
def arrivals (ts : List Turn) : List Cursor := ts.filterMap Turn.arrived?

theorem mem_arrivals {ts : List Turn} {c : Cursor} : c ∈ arrivals ts ↔ .arrive c ∈ ts := by
  rw [arrivals, List.mem_filterMap]
  constructor
  · rintro ⟨t, ht, harrived⟩
    cases t with
    | arrive c' =>
      cases harrived
      exact ht
    | depart c' => cases harrived
  · exact fun h => ⟨_, h, rfl⟩

/-- The walk from the root takes these turns and ends.  It arrives at each node of the tree once, in
preorder, and departs from it once. -/
structure WalksOnce (root : Node) (ts : List Turn) : Prop where
  run : Run none (.arrive (.ofRoot root)) ts
  length_eq : ts.length = 2 * root.size
  nodup : (arrivals ts).Nodup
  mem_iff : ∀ c, c ∈ arrivals ts ↔ (Cursor.ofRoot root).Spans c
  nodes_eq : (arrivals ts).map Cursor.node = root.preorder

theorem exists_walksOnce (root : Node) : ∃ ts, WalksOnce root ts := by
  have hrun : Run none (.arrive (.ofRoot root)) (turns root [] []) := run_turns root [] []
  refine ⟨turns root [] [], hrun, length_turns root [] [], ?_, fun c => ?_, nodes_turns root [] []⟩
  · refine hrun.nodup.filterMap fun t t' c hc hc' => ?_
    cases t <;> cases t' <;> cases hc <;> cases hc'
    rfl
  · rw [mem_arrivals]
    constructor
    · intro h
      exact hrun.forall_mem (P := fun t => (Cursor.ofRoot root).Spans t.cursor) .root
        Turn.spans_next _ h
    · intro h
      induction h with
      | root => exact hrun.first_mem
      | @child c c' _ hmove ih =>
        refine hrun.next_mem ih ?_
        rw [Turn.next?, hmove]
      | @brother c c' _ hmove ih =>
        refine hrun.next_mem (depart_mem_turns root [] [] ih) ?_
        rw [Turn.next?, hmove]

/-! ## visiting by the walk -/

/-- A walk that departs from a node ends without another arrival, or goes on from where `leave`
is. -/
theorem Run.leave {c : Cursor} {ts : List Turn} (h : Run none (.depart c) ts) :
    (c.leave = none ∧ arrivals ts = []) ∨
      ∃ c' us, c.leave = some c' ∧ Run none (.arrive c') us ∧ arrivals ts = arrivals us ∧
        us.length < ts.length := by
  obtain ⟨node, rest, above⟩ := c
  induction above generalizing node rest ts with
  | nil =>
    cases rest with
    | nil =>
      cases h with
      | last => exact .inl ⟨by rw [Cursor.leave]; rfl, rfl⟩
      | more hnext => cases hnext
    | cons m ms =>
      cases h with
      | last hnext => cases hnext
      | more hnext later =>
        cases hnext
        exact .inr ⟨_, _, by rw [Cursor.leave]; rfl, later, rfl, Nat.lt_succ_self _⟩
  | cons p above ih =>
    cases rest with
    | nil =>
      cases h with
      | last hnext => cases hnext
      | more hnext later =>
        cases hnext
        have hleave : (Cursor.mk node [] (p :: above)).leave = (Cursor.mk p.1 p.2 above).leave := by
          rw [Cursor.leave]
          rfl
        rcases ih p.1 p.2 later with ⟨hnone, hempty⟩ | ⟨c', us, hsome, hrun, hsame, hless⟩
        · exact .inl ⟨hleave.trans hnone, hempty⟩
        · exact .inr ⟨c', us, hleave.trans hsome, hrun, hsame, Nat.lt_succ_of_lt hless⟩
    | cons m ms =>
      cases h with
      | last hnext => cases hnext
      | more hnext later =>
        cases hnext
        exact .inr ⟨_, _, by rw [Cursor.leave]; rfl, later, rfl, Nat.lt_succ_self _⟩

/-- Visiting from a cursor on is visiting the nodes at which the walk arrives. -/
theorem foldFrom_of_run {α : Type} (visit : α → Node → α) (a : α) {c : Cursor} {ts : List Turn}
    (h : Run none (.arrive c) ts) :
    c.foldFrom visit a = ((arrivals ts).map Cursor.node).foldl visit a := by
  induction hn : ts.length using Nat.strongRecOn generalizing a c ts with
  | ind n ih =>
    rw [Cursor.foldFrom]
    cases h with
    | last hnext =>
      unfold Turn.next? at hnext
      dsimp only at hnext
      split at hnext <;> cases hnext
    | @more _ t' us hnext later =>
      unfold Turn.next? at hnext
      dsimp only at hnext
      split at hnext
      · next child hmove =>
        cases hnext
        rw [hmove]
        exact ih us.length (hn ▸ Nat.lt_succ_self _) (visit a c.node) later rfl
      · next hmove =>
        cases hnext
        rw [hmove]
        dsimp only
        have hall : arrivals (.arrive c :: us) = c :: arrivals us := rfl
        rcases later.leave with ⟨hnone, hempty⟩ | ⟨c', vs, hsome, hrun, hsame, hless⟩
        · rw [hnone, hall, hempty]
          rfl
        · rw [hsome, hall, hsame]
          exact ih vs.length (hn ▸ Nat.lt_succ_of_lt hless) (visit a c.node) hrun rfl

/-- Visiting by the walk is visiting the nodes in preorder. -/
theorem fold_eq {α : Type} (visit : α → Node → α) (a : α) (root : Node) :
    root.fold visit a = root.preorder.foldl visit a := by
  have hwalk := foldFrom_of_run visit a (run_turns root [] [])
  rw [Node.fold, ← nodes_turns root [] []]
  exact hwalk

end PageFuzz.Markup
