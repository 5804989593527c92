import Mathlib
import PageFuzz.Page.Template
import PageFuzz.Proofs.Session.Artifacts

/-!
# Filling a template in one pass

The places of a template are filled one mark after the other, and each time the whole text is read
anew.  That could go wrong in two ways: a text that is put in could make a mark together with what
stands around it, and two marks could overlap.  Seeds and ports have no character of a mark, and
neither mark begins within the other; so the order makes no difference, one pass over the template
does the same, and no mark is left.

* `fill`                   one pass with several marks;
* `fillInduction`          what a pass meets: nothing, a mark, or a character to copy;
* `replaceFrom_eq_fill`    replacing one mark is a pass with that mark alone;
* `Apart`                  fillings that do not get in each other's way;
* `Apart.prefix_of_fill`, `Apart.notInfix_fill`  nothing that is put in makes a mark;
* `Apart.fill_fill`        one mark before the others is that mark along with them;
* `render_eq_fill`         the places of a template.
-/

namespace PageFuzz.Page

/-! ## one pass -/

/-- a mark and the text that takes its place -/
structure Filling where
  mark : List Char
  text : List Char

/-- the filling whose mark a text begins with, the first of them -/
def markAt? (table : List Filling) (cs : List Char) : Option Filling :=
  table.find? fun m => m.mark.isPrefixOf cs

/-- One pass over a text, from left to right.  Where a mark begins, its text is put, and the pass
goes on behind the mark; any other character is copied. -/
def fill (table : List Filling) : List Char → List Char
  | [] => []
  | c :: cs =>
    match markAt? table (c :: cs) with
    | some m => m.text ++ fill table (cs.drop (m.mark.length - 1))
    | none => c :: fill table cs
termination_by cs => cs.length
decreasing_by
  all_goals
    simp only [List.length_drop, List.length_cons]
    omega

section
variable {table : List Filling} {m : Filling} {c : Char} {cs rest : List Char}

theorem of_markAt?_eq_some (h : markAt? table cs = some m) : m ∈ table ∧ m.mark <+: cs := by
  unfold markAt? at h
  have hbegins := List.find?_some h
  exact ⟨List.mem_of_find?_eq_some h, List.isPrefixOf_iff_prefix.mp hbegins⟩

theorem markAt?_eq_none : markAt? table cs = none ↔ ∀ m ∈ table, ¬ m.mark <+: cs := by
  unfold markAt?
  rw [List.find?_eq_none]
  simp only [List.isPrefixOf_iff_prefix]

theorem fill_nil (table : List Filling) : fill table [] = [] := by
  rw [fill]

theorem fill_mark (hm : markAt? table (m.mark ++ rest) = some m) (hne : m.mark ≠ []) :
    fill table (m.mark ++ rest) = m.text ++ fill table rest := by
  obtain ⟨c, cs, hmark⟩ := List.exists_cons_of_ne_nil hne
  have hbehind : (cs ++ rest).drop (m.mark.length - 1) = rest := by
    rw [hmark, List.length_cons, Nat.add_sub_cancel, List.drop_left]
  rw [hmark, List.cons_append] at hm ⊢
  rw [fill, hm]
  dsimp only
  rw [hbehind]

theorem fill_copy (hnone : markAt? table (c :: cs) = none) :
    fill table (c :: cs) = c :: fill table cs := by
  rw [fill, hnone]

/-- A text is empty, or a mark begins it, or a character does at which no mark begins. -/
@[elab_as_elim]
theorem fillInduction (hne : ∀ m ∈ table, m.mark ≠ []) {motive : List Char → Prop}
    (nil : motive [])
    (mark : ∀ m rest, markAt? table (m.mark ++ rest) = some m → motive rest →
      motive (m.mark ++ rest))
    (copy : ∀ c cs, markAt? table (c :: cs) = none → motive cs → motive (c :: cs))
    (cs : List Char) : motive cs := by
  induction hlength : cs.length using Nat.strong_induction_on generalizing cs with
  | h n ih =>
    subst hlength
    cases cs with
    | nil => exact nil
    | cons c cs =>
      cases hfind : markAt? table (c :: cs) with
      | none => exact copy c cs hfind (ih cs.length (Nat.lt_succ_self _) cs rfl)
      | some m =>
        obtain ⟨hm, rest, hrest⟩ := of_markAt?_eq_some hfind
        have hpos : 0 < m.mark.length := List.length_pos_of_ne_nil (hne m hm)
        have hless : rest.length < (c :: cs).length := by
          rw [← hrest, List.length_append]
          omega
        rw [← hrest] at hfind ⊢
        exact mark m rest hfind (ih rest.length hless rest rfl)

end

/-! ## one mark -/

section
variable {mark text : List Char}

theorem replaceFrom_skip (mark text : List Char) (skip : Nat) (cs : List Char) :
    replaceFrom mark text skip cs = replaceFrom mark text 0 (cs.drop skip) := by
  induction skip generalizing cs with
  | zero => rfl
  | succ skip ih =>
    cases cs with
    | nil => rw [List.drop_nil, replaceFrom_nil, replaceFrom_nil]
    | cons c cs =>
      rw [replaceFrom, List.drop_succ_cons]
      exact ih cs

/-- Replacing a mark wherever it occurs is a pass with that mark alone. -/
theorem replaceFrom_eq_fill (hne : mark ≠ []) (cs : List Char) :
    replaceFrom mark text 0 cs = fill [⟨mark, text⟩] cs := by
  have hmarks : ∀ m ∈ [Filling.mk mark text], m.mark ≠ [] := by
    intro m hm
    rw [List.mem_singleton.mp hm]
    exact hne
  induction cs using fillInduction hmarks with
  | nil => rw [fill_nil, replaceFrom_nil]
  | mark m rest hfind ih =>
    obtain rfl := List.mem_singleton.mp (of_markAt?_eq_some hfind).1
    rw [fill_mark hfind hne, ← ih]
    obtain ⟨c, cs, rfl⟩ := List.exists_cons_of_ne_nil hne
    have hbegins : (c :: cs).isPrefixOf (c :: (cs ++ rest)) = true :=
      List.isPrefixOf_iff_prefix.mpr (List.prefix_append (c :: cs) rest)
    show replaceFrom (c :: cs) text 0 (c :: (cs ++ rest)) = _
    rw [replaceFrom, if_pos hbegins, replaceFrom_skip, List.length_cons, Nat.add_sub_cancel,
      List.drop_left]
  | copy c cs hnone ih =>
    have hnot : ¬ mark.isPrefixOf (c :: cs) = true := by
      rw [List.isPrefixOf_iff_prefix]
      exact markAt?_eq_none.mp hnone _ (List.mem_singleton_self _)
    rw [fill_copy hnone, replaceFrom, if_neg hnot, ih]

end

/-! ## marks and texts that are apart -/

/-- Neither of two marks begins within the other. -/
def Clear (a b : List Char) : Prop :=
  ∀ s, s ≠ [] → s <:+ a → ¬ b <+: s ∧ ¬ s <+: b

/-- Fillings that do not get in each other's way: the texts are made of other characters than the
marks, and no mark begins within another. -/
structure Apart (table : List Filling) : Prop where
  mark_ne_nil : ∀ m ∈ table, m.mark ≠ []
  text_ne_nil : ∀ m ∈ table, m.text ≠ []
  text_apart : ∀ m ∈ table, ∀ k ∈ table, ∀ c ∈ m.text, c ∉ k.mark
  mark_apart : ∀ m ∈ table, ∀ k ∈ table, m ≠ k → Clear m.mark k.mark

/-- A mark that a text does not touch begins behind the text. -/
theorem not_prefix_of_clear {a b : List Char} (hclear : Clear a b) {s rest : List Char}
    (hs : s ≠ []) (hsuffix : s <:+ a) : ¬ b <+: s ++ rest := by
  intro hbegins
  obtain ⟨hlong, hshort⟩ := hclear s hs hsuffix
  rcases List.prefix_or_prefix_of_prefix hbegins (List.prefix_append s rest) with h | h
  · exact hlong h
  · exact hshort h

namespace Apart

variable {table : List Filling} {m k : Filling} {cs rest w : List Char}

theorem subset (h : Apart table) {part : List Filling} (hsub : part ⊆ table) : Apart part where
  mark_ne_nil m hm := h.mark_ne_nil m (hsub hm)
  text_ne_nil m hm := h.text_ne_nil m (hsub hm)
  text_apart m hm k hk := h.text_apart m (hsub hm) k (hsub hk)
  mark_apart m hm k hk := h.mark_apart m (hsub hm) k (hsub hk)

/-- At a mark no other mark begins. -/
theorem markAt?_mark (h : Apart table) (hm : m ∈ table) (rest : List Char) :
    markAt? table (m.mark ++ rest) = some m := by
  cases hfind : markAt? table (m.mark ++ rest) with
  | none => exact absurd (List.prefix_append m.mark rest) (markAt?_eq_none.mp hfind m hm)
  | some k =>
    obtain ⟨hk, hbegins⟩ := of_markAt?_eq_some hfind
    by_cases hsame : m = k
    · rw [hsame]
    · exact absurd hbegins
        (not_prefix_of_clear (h.mark_apart m hm k hk hsame) (h.mark_ne_nil m hm) List.suffix_rfl)

/-- So the order of the fillings makes no difference. -/
theorem fill_congr (h : Apart table) {other : List Filling} (hsame : ∀ m, m ∈ other ↔ m ∈ table)
    (cs : List Char) : fill other cs = fill table cs := by
  have hother : Apart other := h.subset fun m hm => (hsame m).mp hm
  induction cs using fillInduction h.mark_ne_nil with
  | nil => rw [fill_nil, fill_nil]
  | mark m rest hfind ih =>
    have hm := (of_markAt?_eq_some hfind).1
    have hne := h.mark_ne_nil m hm
    rw [fill_mark hfind hne, fill_mark (hother.markAt?_mark ((hsame m).mpr hm) rest) hne, ih]
  | copy c cs hnone ih =>
    have hnone' : markAt? other (c :: cs) = none :=
      markAt?_eq_none.mpr fun m hm => markAt?_eq_none.mp hnone m ((hsame m).mp hm)
    rw [fill_copy hnone, fill_copy hnone', ih]

/-! ## what is put in -/

/-- What has no character of the fillings' texts and begins a text that was filled began it
before. -/
theorem prefix_of_fill (h : Apart table) (hw : ∀ m ∈ table, ∀ c ∈ m.text, c ∉ w)
    (hbegins : w <+: fill table cs) : w <+: cs := by
  induction cs using fillInduction h.mark_ne_nil generalizing w with
  | nil => rwa [fill_nil] at hbegins
  | mark m rest hfind ih =>
    have hm := (of_markAt?_eq_some hfind).1
    obtain ⟨c, text, htext⟩ := List.exists_cons_of_ne_nil (h.text_ne_nil m hm)
    rw [fill_mark hfind (h.mark_ne_nil m hm), htext, List.cons_append] at hbegins
    rcases List.prefix_cons_iff.mp hbegins with rfl | ⟨tail, rfl, -⟩
    · exact List.nil_prefix
    · refine absurd List.mem_cons_self (hw m hm c ?_)
      rw [htext]
      exact List.mem_cons_self
  | copy c cs hnone ih =>
    rw [fill_copy hnone] at hbegins
    rcases List.prefix_cons_iff.mp hbegins with rfl | ⟨tail, rfl, htail⟩
    · exact List.nil_prefix
    · refine List.cons_prefix_cons.mpr ⟨rfl, ih (fun m hm d hd hmem => ?_) htail⟩
      exact hw m hm d hd (List.mem_cons_of_mem c hmem)

/-- What has no character of a text does not begin within it. -/
theorem infix_of_append {u : List Char} (hw : w ≠ []) (hapart : ∀ c ∈ u, c ∉ w)
    (hin : w <:+: u ++ rest) : w <:+: rest := by
  induction u with
  | nil => exact hin
  | cons c u ih =>
    rw [List.cons_append] at hin
    rcases List.infix_cons_iff.mp hin with hbegins | hlater
    · rcases List.prefix_cons_iff.mp hbegins with rfl | ⟨tail, rfl, -⟩
      · exact absurd rfl hw
      · exact absurd List.mem_cons_self (hapart c List.mem_cons_self)
    · exact ih (fun d hd => hapart d (List.mem_cons_of_mem c hd)) hlater

/-- No mark is left, and none comes up. -/
theorem notInfix_fill (h : Apart table) (hk : k ∈ table) (cs : List Char) :
    ¬ k.mark <:+: fill table cs := by
  have hne := h.mark_ne_nil k hk
  induction cs using fillInduction h.mark_ne_nil with
  | nil =>
    rw [fill_nil, List.infix_nil]
    exact hne
  | mark m rest hfind ih =>
    have hm := (of_markAt?_eq_some hfind).1
    rw [fill_mark hfind (h.mark_ne_nil m hm)]
    exact fun hin => ih (infix_of_append hne (h.text_apart m hm k hk) hin)
  | copy c cs hnone ih =>
    intro hin
    have hbefore : ¬ k.mark <+: fill table (c :: cs) := fun hbegins =>
      markAt?_eq_none.mp hnone k hk
        (h.prefix_of_fill (fun m hm d hd => h.text_apart m hm k hk d hd) hbegins)
    rw [fill_copy hnone] at hin hbefore
    rcases List.infix_cons_iff.mp hin with hbegins | hlater
    · exact hbefore hbegins
    · exact ih hlater

/-! ## one mark after another -/

/-- A pass copies a text in which no mark begins. -/
theorem fill_append {u : List Char}
    (hu : ∀ s, s ≠ [] → s <:+ u → ∀ m ∈ table, ¬ m.mark <+: s ++ rest) :
    fill table (u ++ rest) = u ++ fill table rest := by
  induction u with
  | nil => rfl
  | cons c u ih =>
    have hnone : markAt? table (c :: (u ++ rest)) = none :=
      markAt?_eq_none.mpr (hu (c :: u) (List.cons_ne_nil c u) List.suffix_rfl)
    rw [List.cons_append, fill_copy hnone,
      ih fun s hs hsuffix => hu s hs (hsuffix.trans (List.suffix_cons c u))]
    rfl

/-- **One mark before the others is that mark along with them.** -/
theorem fill_fill {a : Filling} (h : Apart (a :: table)) (ha : a ∉ table) (cs : List Char) :
    fill table (fill [a] cs) = fill (a :: table) cs := by
  have hfirst : Apart [a] :=
    h.subset fun m hm => List.mem_cons.mpr (.inl (List.mem_singleton.mp hm))
  have hothers : Apart table := h.subset (List.subset_cons_self a table)
  induction cs using fillInduction h.mark_ne_nil with
  | nil => rw [fill_nil, fill_nil, fill_nil]
  | mark m rest hfind ih =>
    have hm := (of_markAt?_eq_some hfind).1
    have hne := h.mark_ne_nil m hm
    rw [fill_mark hfind hne, ← ih]
    rcases List.mem_cons.mp hm with rfl | hm
    · -- the text of the first mark has no character of the others, and is copied
      rw [fill_mark (hfirst.markAt?_mark (List.mem_singleton_self m) rest) hne]
      refine fill_append fun s hs hsuffix k hk hbegins => ?_
      obtain ⟨c, s', rfl⟩ := List.exists_cons_of_ne_nil hs
      have hmem : c ∈ m.text := hsuffix.subset List.mem_cons_self
      rw [List.cons_append] at hbegins
      rcases List.prefix_cons_iff.mp hbegins with hnil | ⟨tail, hmark, -⟩
      · exact hothers.mark_ne_nil k hk hnil
      · refine h.text_apart m List.mem_cons_self k (List.mem_cons_of_mem m hk) c hmem ?_
        rw [hmark]
        exact List.mem_cons_self
    · -- within another mark the first mark does not begin, and so that mark is copied
      have hother : m ≠ a := fun he => ha (he ▸ hm)
      have hclear := h.mark_apart m (List.mem_cons_of_mem a hm) a List.mem_cons_self hother
      have hcopied : fill [a] (m.mark ++ rest) = m.mark ++ fill [a] rest := by
        refine fill_append fun s hs hsuffix k hk => ?_
        rw [List.mem_singleton.mp hk]
        exact not_prefix_of_clear hclear hs hsuffix
      rw [hcopied, fill_mark (hothers.markAt?_mark hm _) hne]
  | copy c cs hnone ih =>
    have hnot := markAt?_eq_none.mp hnone
    have hcopied : markAt? [a] (c :: cs) = none :=
      markAt?_eq_none.mpr fun k hk => List.mem_singleton.mp hk ▸ hnot a List.mem_cons_self
    have hstill : markAt? table (c :: fill [a] cs) = none := by
      rw [← fill_copy hcopied]
      refine markAt?_eq_none.mpr fun k hk hbegins => hnot k (List.mem_cons_of_mem a hk) ?_
      refine hfirst.prefix_of_fill (fun m hm d hd => ?_) hbegins
      rw [List.mem_singleton.mp hm] at hd
      exact h.text_apart a List.mem_cons_self k (List.mem_cons_of_mem a hk) d hd
    rw [fill_copy hnone, fill_copy hcopied, fill_copy hstill, ih]

end Apart

/-! ## the places of a template -/

theorem toList_replaceAll {mark : String} (hne : mark.toList ≠ []) (text template : String) :
    (replaceAll mark text template).toList =
      fill [⟨mark.toList, text.toList⟩] template.toList := by
  rw [replaceAll, String.toList_ofList, replaceFrom_eq_fill hne]

/-- what the marks of a template stand for -/
def fillings (seed : String) (port : Nat) : List Filling :=
  [⟨seedMark.toList, seed.toList⟩, ⟨portMark.toList, (toString port).toList⟩]

theorem toList_seedMark : seedMark.toList = ['{', '{', 's', 'e', 'e', 'd', '}', '}'] := rfl

theorem toList_portMark : portMark.toList =
    ['{', '{', 'c', 'a', 'l', 'l', 'b', 'a', 'c', 'k', '_', 'p', 'o', 'r', 't', '}', '}'] := rfl

/-- Neither mark begins within the other. -/
theorem clear_marks :
    Clear seedMark.toList portMark.toList ∧ Clear portMark.toList seedMark.toList := by
  have hchecked : ∀ {a b : List Char},
      (∀ s ∈ a.tails, s ≠ [] → ¬ b <+: s ∧ ¬ s <+: b) → Clear a b :=
    fun h s hs hsuffix => h s ((List.mem_tails _ _).mpr hsuffix) hs
  rw [toList_seedMark, toList_portMark]
  exact ⟨hchecked (by decide), hchecked (by decide)⟩

/-- a character that numbers are written with -/
def IsNumeric (c : Char) : Prop := c.isDigit = true ∨ c = '.'

theorem not_isNumeric_of_mem_mark {c : Char} (hc : c ∈ seedMark.toList ++ portMark.toList) :
    ¬ IsNumeric c := by
  have hall : (seedMark.toList ++ portMark.toList).all
      (fun d => !d.isDigit && d != '.') = true := by
    rw [toList_seedMark, toList_portMark]
    rfl
  have hnot := List.all_eq_true.mp hall c hc
  rw [Bool.and_eq_true, Bool.not_eq_true', bne_iff_ne] at hnot
  rintro (hdigit | hpoint)
  · rw [hdigit] at hnot
    exact Bool.noConfusion hnot.1
  · exact hnot.2 hpoint

theorem isNumeric_of_mem_port {port : Nat} {c : Char} (hc : c ∈ (toString port).toList) :
    IsNumeric c := by
  rw [toList_toString] at hc
  exact .inl (Nat.isDigit_of_mem_toDigits (by decide) (by decide) hc)

theorem port_ne_nil (port : Nat) : (toString port).toList ≠ [] := by
  rw [toList_toString]
  exact Nat.toDigits_ne_nil

theorem seed_ne_nil (seed : Seed) : seed.text.toList ≠ [] := by
  intro hnil
  have hseed := seed.isSeed
  rw [hnil] at hseed
  exact absurd hseed (by decide)

theorem apart_fillings (seed : Seed) (port : Nat) : Apart (fillings seed.text port) := by
  have hnumeric : ∀ m ∈ fillings seed.text port, ∀ c ∈ m.text, IsNumeric c := by
    intro m hm c hc
    rcases List.mem_pair.mp hm with rfl | rfl
    · exact Session.mem_seed hc
    · exact isNumeric_of_mem_port hc
  have hmark : ∀ m ∈ fillings seed.text port, m.mark ⊆ seedMark.toList ++ portMark.toList := by
    intro m hm
    rcases List.mem_pair.mp hm with rfl | rfl
    · exact List.subset_append_left _ _
    · exact List.subset_append_right _ _
  constructor
  · intro m hm
    rcases List.mem_pair.mp hm with rfl | rfl
    · exact List.cons_ne_nil _ _
    · exact List.cons_ne_nil _ _
  · intro m hm
    rcases List.mem_pair.mp hm with rfl | rfl
    · exact seed_ne_nil seed
    · exact port_ne_nil port
  · exact fun m hm k hk c hc hin => not_isNumeric_of_mem_mark (hmark k hk hin) (hnumeric m hm c hc)
  · intro m hm k hk hne
    rcases List.mem_pair.mp hm with rfl | rfl <;> rcases List.mem_pair.mp hk with rfl | rfl
    · exact absurd rfl hne
    · exact clear_marks.1
    · exact clear_marks.2
    · exact absurd rfl hne

/-- **Filling a template is one pass.**  The seed is put in first and then the port, each wherever
its mark occurs; for every seed this is one pass over the template that puts in both.  It makes no
difference which is put in first, and no mark is in the text that comes out. -/
theorem render_eq_fill {text : String} {seed : Seed} (hseed : Seed.ofString text = .ok seed)
    (template : String) (port : Nat) :
    (render template text port).toList = fill (fillings text port) template.toList ∧
      replaceAll seedMark text (replaceAll portMark (toString port) template) =
        render template text port ∧
      ¬ seedMark.toList <:+: (render template text port).toList ∧
      ¬ portMark.toList <:+: (render template text port).toList := by
  obtain rfl : seed.text = text := by
    unfold Seed.ofString at hseed
    split at hseed
    · cases hseed
      rfl
    · cases hseed
  have hapart := apart_fillings seed port
  let s : Filling := ⟨seedMark.toList, seed.text.toList⟩
  let p : Filling := ⟨portMark.toList, (toString port).toList⟩
  have hseedMark : seedMark.toList ≠ [] := List.cons_ne_nil _ _
  have hportMark : portMark.toList ≠ [] := List.cons_ne_nil _ _
  have hmarks : seedMark.toList ≠ portMark.toList := by
    rw [toList_seedMark, toList_portMark]
    decide
  have hne : s ≠ p := fun he => hmarks (congrArg Filling.mark he)
  have hswap : ∀ m, m ∈ [p, s] ↔ m ∈ [s, p] := fun m => by
    rw [List.mem_pair, List.mem_pair, or_comm]
  have hrender : (render template seed.text port).toList = fill [s, p] template.toList := by
    rw [render, toList_replaceAll hportMark, toList_replaceAll hseedMark]
    exact hapart.fill_fill (fun hmem => hne (List.mem_singleton.mp hmem)) template.toList
  refine ⟨hrender, ?_, ?_, ?_⟩
  · have hother : Apart [p, s] := hapart.subset fun m hm => (hswap m).mp hm
    refine String.toList_inj.mp ?_
    rw [hrender, toList_replaceAll hseedMark, toList_replaceAll hportMark]
    calc fill [s] (fill [p] template.toList)
        = fill [p, s] template.toList :=
          hother.fill_fill (fun hmem => hne (List.mem_singleton.mp hmem).symm) template.toList
      _ = fill [s, p] template.toList := hapart.fill_congr hswap template.toList
  · rw [hrender]
    exact hapart.notInfix_fill (List.mem_cons_self (a := s)) template.toList
  · rw [hrender]
    exact hapart.notInfix_fill (List.mem_cons_of_mem s (List.mem_singleton_self p)) template.toList

/-- A mark within the pieces of another, and marks without a space between them. -/
theorem render_eq_fill_of_nested :
    ∃ seed, Seed.ofString "1.5" = .ok seed ∧
      render "\x7b\x7bse\x7b\x7bseed\x7d\x7ded\x7d\x7d\x7b\x7bcallback_port\x7d\x7d\x7d" "1.5" 80 =
        "\x7b\x7bse1.5ed\x7d\x7d80\x7d" ∧
      fill (fillings "1.5" 80)
        "\x7b\x7bse\x7b\x7bseed\x7d\x7ded\x7d\x7d\x7b\x7bcallback_port\x7d\x7d\x7d".toList =
          "\x7b\x7bse1.5ed\x7d\x7d80\x7d".toList := by
  have hseed : Seed.ofString "1.5" = .ok ⟨"1.5", by decide⟩ := by cbv
  have hrender : render
      "\x7b\x7bse\x7b\x7bseed\x7d\x7ded\x7d\x7d\x7b\x7bcallback_port\x7d\x7d\x7d" "1.5" 80 =
        "\x7b\x7bse1.5ed\x7d\x7d80\x7d" := by cbv
  refine ⟨_, hseed, hrender, ?_⟩
  rw [← (render_eq_fill hseed _ 80).1, hrender]

end PageFuzz.Page
