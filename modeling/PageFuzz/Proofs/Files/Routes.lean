import Mathlib.Tactic.Common
import PageFuzz.Files.Place
import PageFuzz.Proofs.Files.Kinds

/-!
# Routes

A walk that ends at an entry of a directory has taken a route: along names of directories, up
again, and through links, until one last name is left.  A route is a relation on what a walk sees,
so it can be moved to another tree, to another ending of the path, and in front of more names.

* `walk_congr`          a walk depends on what it sees and on nothing else;
* `route_of_walk`       a walk to an entry has taken a route;
* `Route.walk_eq`       a route leads a walk to its last name;
* `Route.walk_append`   a route leads on to more names;
* `Route.mono`          a tree with the same directories and links has the same routes.
-/

namespace PageFuzz.Place

/-- a name that is looked up in a directory -/
def IsPlain (n : Name) : Prop :=
  n ≠ [Path.dot] ∧ n ≠ [Path.dot, Path.dot] ∧ n.length ≤ longestName

/-- one step of a walk at a plain name, by what stands there -/
theorem walk_plain {n : Name} (hn : IsPlain n) (root : Folder) (ending : Ending) (links : Nat)
    (base : List Name) (asDir : Bool) (ns : List Name) :
    walk root ending links base asDir (n :: ns) =
      match root.kinds base n with
      | none => .error .notFound
      | some none => if ns.isEmpty then .ok (.entry base n asDir) else .error .notFound
      | some (some .file) =>
        if ns.isEmpty then .ok (.entry base n asDir) else .error .notDirectory
      | some (some .dir) =>
        if ns.isEmpty then .ok (.entry base n asDir)
        else walk root ending links (base ++ [n]) asDir ns
      | some (some (.link target)) =>
        if ns.isEmpty && !replacesLast ending asDir then .ok (.entry base n asDir)
        else
          match links with
          | 0 => .error .tooManyLinks
          | links + 1 =>
            walk root ending links (if target.isAbsolute then [] else base)
              (asDir || ns.isEmpty && target.endsWithSlash) (target.names ++ ns) := by
  obtain ⟨h1, h2, h3⟩ := hn
  have hkinds : root.kinds base n =
      ((root.at? base).map (Folder.find? n)).map (Option.map Node.kind) := by
    rw [Option.map_map]
    rfl
  rw [walk, if_neg h1, if_neg h2, if_neg (Nat.not_lt.mpr h3), hkinds]
  cases (root.at? base).map (Folder.find? n) with
  | none => rfl
  | some found =>
    cases found with
    | none => rfl
    | some node => cases node <;> rfl

/-- A walk that keeps a link at its end comes to every last name of a directory. -/
theorem walk_keep {root : Folder} {base : List Name} {n : Name} (hn : IsPlain n)
    {found : Option Kind} (hk : root.kinds base n = some found) (links : Nat) (asDir : Bool) :
    walk root .keep links base asDir [n] = .ok (.entry base n asDir) := by
  rw [walk_plain hn, hk]
  cases found with
  | none => rfl
  | some k => cases k <;> rfl

theorem walk_dot (root : Folder) (ending : Ending) (links : Nat) (base : List Name)
    (asDir : Bool) (ns : List Name) :
    walk root ending links base asDir ([Path.dot] :: ns) =
      walk root ending links base asDir ns := by
  rw [walk, if_pos rfl]

theorem walk_up (root : Folder) (ending : Ending) (links : Nat) (base : List Name)
    (asDir : Bool) (ns : List Name) :
    walk root ending links base asDir ([Path.dot, Path.dot] :: ns) =
      walk root ending links base.dropLast asDir ns := by
  rw [walk, if_neg (by decide), if_pos rfl]

theorem walk_of_long {n : Name} (hdot : n ≠ [Path.dot]) (hup : n ≠ [Path.dot, Path.dot])
    (hlong : longestName < n.length) (root : Folder) (ending : Ending) (links : Nat)
    (base : List Name) (asDir : Bool) (ns : List Name) :
    walk root ending links base asDir (n :: ns) = .error .nameTooLong := by
  rw [walk, if_neg hdot, if_neg hup, if_pos hlong]

/-- Two trees of which a walk sees the same lead every walk to the same end. -/
theorem walk_congr {root r : Folder} (h : ∀ b n, r.kinds b n = root.kinds b n) (ending : Ending)
    (links : Nat) (base : List Name) (asDir : Bool) (ns : List Name) :
    walk r ending links base asDir ns = walk root ending links base asDir ns := by
  match ns with
  | [] => rw [walk_nil, walk_nil]
  | n :: ns =>
    by_cases hdot : n = [Path.dot]
    · subst hdot
      rw [walk_dot, walk_dot]
      exact walk_congr h ending links base asDir ns
    · by_cases hup : n = [Path.dot, Path.dot]
      · subst hup
        rw [walk_up, walk_up]
        exact walk_congr h ending links base.dropLast asDir ns
      · by_cases hlong : longestName < n.length
        · rw [walk_of_long hdot hup hlong, walk_of_long hdot hup hlong]
        · have hn : IsPlain n := ⟨hdot, hup, Nat.not_lt.mp hlong⟩
          rw [walk_plain hn, walk_plain hn, h base n]
          split
          · rfl
          · rfl
          · rfl
          · split
            · rfl
            · exact walk_congr h ending links (base ++ [n]) asDir ns
          · split
            · rfl
            · split
              · rfl
              · exact walk_congr h ending _ _ _ _
termination_by (links, ns.length)

/-- the way of a walk until one last name is left, at the stop `(links', base', asDir', name)` -/
inductive Route (root : Folder) (ending : Ending) (links' : Nat) (base' : List Name)
    (asDir' : Bool) (name : Name) : Nat → List Name → Bool → List Name → Prop where
  | stop : Route root ending links' base' asDir' name links' base' asDir' [name]
  | dot {links : Nat} {base : List Name} {asDir : Bool} {ns : List Name} :
      Route root ending links' base' asDir' name links base asDir ns →
      Route root ending links' base' asDir' name links base asDir ([Path.dot] :: ns)
  | up {links : Nat} {base : List Name} {asDir : Bool} {ns : List Name} :
      Route root ending links' base' asDir' name links base.dropLast asDir ns →
      Route root ending links' base' asDir' name links base asDir ([Path.dot, Path.dot] :: ns)
  | into {links : Nat} {base : List Name} {asDir : Bool} {n : Name} {ns : List Name} :
      IsPlain n → root.kinds base n = some (some .dir) → ns ≠ [] →
      Route root ending links' base' asDir' name links (base ++ [n]) asDir ns →
      Route root ending links' base' asDir' name links base asDir (n :: ns)
  | link {links : Nat} {base : List Name} {asDir : Bool} {n : Name} {ns : List Name}
      {target : Path} :
      IsPlain n → root.kinds base n = some (some (.link target)) →
      (ns ≠ [] ∨ replacesLast ending asDir = true) →
      Route root ending links' base' asDir' name links (if target.isAbsolute then [] else base)
        (asDir || ns.isEmpty && target.endsWithSlash) (target.names ++ ns) →
      Route root ending links' base' asDir' name (links + 1) base asDir (n :: ns)

theorem kinds_of_found {root : Folder} {base : List Name} {n : Name} {found : Option Node}
    (h : (root.at? base).map (Folder.find? n) = some found) :
    root.kinds base n = some (found.map Node.kind) := by
  have : root.kinds base n =
      ((root.at? base).map (Folder.find? n)).map (Option.map Node.kind) := by
    rw [Option.map_map]
    rfl
  rw [this, h]
  rfl

/-- The last plain name of a walk that stops there. -/
theorem route_at_last {root : Folder} {ending : Ending} (links : Nat) {base base' : List Name}
    {asDir asDir' : Bool} {n name : Name} {ns : List Name} (hn : IsPlain n)
    (hns : ns.isEmpty = true)
    (h : (.ok (.entry base n asDir) : Except IoCause Place) = .ok (.entry base' name asDir')) :
    IsPlain name ∧
      ∃ links', Route root ending links' base' asDir' name links base asDir (n :: ns) := by
  cases h
  rw [List.isEmpty_iff] at hns
  subst hns
  exact ⟨hn, links, .stop⟩

/-- A walk that ends at an entry has taken a route to it. -/
theorem route_of_walk {root : Folder} {ending : Ending} {links : Nat} {base base' : List Name}
    {asDir asDir' : Bool} {ns : List Name} {name : Name}
    (h : walk root ending links base asDir ns = .ok (.entry base' name asDir')) :
    IsPlain name ∧
      ∃ links', Route root ending links' base' asDir' name links base asDir ns := by
  fun_induction walk root ending links base asDir ns with
  | case1 => cases h
  | case2 links base asDir ns ih =>
    obtain ⟨hp, links', hr⟩ := ih h
    exact ⟨hp, links', .dot hr⟩
  | case3 links base asDir ns _ ih =>
    obtain ⟨hp, links', hr⟩ := ih h
    exact ⟨hp, links', .up hr⟩
  | case4 => cases h
  | case5 => cases h
  | case6 links base asDir n ns h1 h2 h3 _ hns =>
    exact route_at_last links ⟨h1, h2, Nat.not_lt.mp h3⟩ hns h
  | case7 => cases h
  | case8 links base asDir n ns h1 h2 h3 _ _ _ hns =>
    exact route_at_last links ⟨h1, h2, Nat.not_lt.mp h3⟩ hns h
  | case9 => cases h
  | case10 links base asDir n ns h1 h2 h3 _ _ hns =>
    exact route_at_last links ⟨h1, h2, Nat.not_lt.mp h3⟩ hns h
  | case11 links base asDir n ns h1 h2 h3 inner hf hns ih =>
    -- the only step that goes down: a directory with more names after it
    obtain ⟨hp, links', hr⟩ := ih h
    rw [List.isEmpty_iff] at hns
    exact ⟨hp, links', .into ⟨h1, h2, Nat.not_lt.mp h3⟩ (kinds_of_found hf) hns hr⟩
  | case12 links base asDir n ns h1 h2 h3 target _ hns =>
    rw [Bool.and_eq_true] at hns
    exact route_at_last links ⟨h1, h2, Nat.not_lt.mp h3⟩ hns.1 h
  | case13 => cases h
  | case14 base asDir n ns h1 h2 h3 target hf hns links ih =>
    obtain ⟨hp, links', hr⟩ := ih h
    have hreplaced : ns ≠ [] ∨ replacesLast ending asDir = true := by
      by_cases hnil : ns = []
      · rw [hnil] at hns
        exact .inr (by simpa using hns)
      · exact .inl hnil
    exact ⟨hp, links', .link ⟨h1, h2, Nat.not_lt.mp h3⟩ (kinds_of_found hf) hreplaced hr⟩

namespace Route

variable {root : Folder} {ending : Ending} {links links' : Nat} {base base' : List Name}
  {asDir asDir' : Bool} {ns : List Name} {name : Name}

/-- A route leads a walk to its last name. -/
theorem walk_eq (h : Route root ending links' base' asDir' name links base asDir ns) :
    walk root ending links base asDir ns = walk root ending links' base' asDir' [name] := by
  induction h with
  | stop => rfl
  | dot _ ih => rw [walk_dot, ih]
  | up _ ih => rw [walk_up, ih]
  | into hn hk hns _ ih =>
    rw [walk_plain hn, hk]
    dsimp only
    rw [if_neg (by simpa using hns), ih]
  | link hn hk hreplaced _ ih =>
    rw [walk_plain hn, hk]
    dsimp only
    rw [if_neg ?_, ih]
    rcases hreplaced with hns | hr
    · simp [hns]
    · simp [hr]

/-- A route leads a walk on to more names, whatever stands at its own last name. -/
theorem walk_append (h : Route root ending links' base' asDir' name links base asDir ns)
    (ending₂ : Ending) (asDir₂ : Bool) {more : List Name} (hmore : more ≠ []) :
    walk root ending₂ links base asDir₂ (ns ++ more) =
      walk root ending₂ links' base' asDir₂ (name :: more) := by
  induction h with
  | stop => rfl
  | dot _ ih => rw [List.cons_append, walk_dot, ih]
  | up _ ih => rw [List.cons_append, walk_up, ih]
  | @into _ _ _ _ ns hn hk _ _ ih =>
    have hne : ¬ (ns ++ more).isEmpty = true := by simp [hmore]
    rw [List.cons_append, walk_plain hn, hk]
    dsimp only
    rw [if_neg hne, ih]
  | @link _ _ _ _ ns target hn hk _ _ ih =>
    have hne : (ns ++ more).isEmpty = false := by simp [hmore]
    rw [List.cons_append, walk_plain hn, hk]
    dsimp only
    rw [hne, Bool.false_and, Bool.false_and, Bool.or_false, if_neg Bool.false_ne_true,
      ← List.append_assoc, ih]

/-- A tree in which all directories and links are still there has the same routes. -/
theorem mono {r : Folder} (h : Route root ending links' base' asDir' name links base asDir ns)
    (hpass : root.Passable r) : Route r ending links' base' asDir' name links base asDir ns := by
  induction h with
  | stop => exact .stop
  | dot _ ih => exact .dot ih
  | up _ ih => exact .up ih
  | into hn hk hns _ ih => exact .into hn (hpass _ _ _ hk nofun) hns ih
  | link hn hk hreplaced _ ih => exact .link hn (hpass _ _ _ hk nofun) hreplaced ih

/-- An ending that replaces more links has the same routes. -/
theorem of_le {ending₂ : Ending}
    (h : Route root ending links' base' asDir' name links base asDir ns)
    (hle : ∀ d, replacesLast ending d = true → replacesLast ending₂ d = true) :
    Route root ending₂ links' base' asDir' name links base asDir ns := by
  induction h with
  | stop => exact .stop
  | dot _ ih => exact .dot ih
  | up _ ih => exact .up ih
  | into hn hk hns _ ih => exact .into hn hk hns ih
  | link hn hk hreplaced _ ih => exact .link hn hk (hreplaced.imp_right (hle _)) ih

end Route

end PageFuzz.Place
