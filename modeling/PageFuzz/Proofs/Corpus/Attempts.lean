import Mathlib
import PageFuzz.Corpus.Basic
import PageFuzz.Proofs.Files.Frames
import PageFuzz.Proofs.Session.Events

/-!
# Attempts at a page

A corpus draws a page again after each limit that it meets, and gives up after `attempts` of them
in a row.  Said of one long row of attempts, all drawn from one stream, the pages of a corpus are
the texts in that row, and what goes before each of them is a stretch of failures that is not too
long.

* `Paced`             a row of attempts that falls into such stretches;
* `drawPage_cases`    one page: a stretch with its text at the end, or nothing but failures;
* `Drawn`, `Written`  pages that were drawn, and written, one after another;
* `writePages_ends`   a whole corpus, whoever chooses;
* `writePages_cases`  a whole corpus of one stream.
-/

namespace PageFuzz.Corpus

/-! ## stretches of failures -/

/-- attempts from `m` up to `k`: for each text fewer than `attempts` failures, and then that text -/
inductive Paced (outcome : Nat → Except ExpansionError String) :
    Nat → Nat → List String → Prop where
  | done (m : Nat) : Paced outcome m m []
  | page {m j k : Nat} {text : String} {texts : List String} :
      j < attempts → (∀ i < j, ∃ cause, outcome (m + i) = .error cause) →
      outcome (m + j) = .ok text → Paced outcome (m + j + 1) k texts →
      Paced outcome m k (text :: texts)

/-- the texts among some attempts -/
def successes (outcome : Nat → Except ExpansionError String) (ks : List Nat) : List String :=
  ks.filterMap fun i => (outcome i).toOption

theorem successes_append (outcome : Nat → Except ExpansionError String) (a b : List Nat) :
    successes outcome (a ++ b) = successes outcome a ++ successes outcome b :=
  List.filterMap_append

/-- failures have no texts -/
theorem successes_eq_nil {outcome : Nat → Except ExpansionError String} {m j : Nat}
    (h : ∀ i < j, ∃ cause, outcome (m + i) = .error cause) :
    successes outcome (List.range' m j) = [] := by
  refine List.filterMap_eq_nil_iff.mpr fun i hi => ?_
  obtain ⟨hle, hlt⟩ := List.mem_range'_1.mp hi
  obtain ⟨cause, hcause⟩ := h (i - m) (by omega)
  rw [Nat.add_sub_cancel' hle] at hcause
  rw [hcause]
  rfl

namespace Paced

variable {outcome : Nat → Except ExpansionError String} {m k : Nat} {texts : List String}

theorem le (h : Paced outcome m k texts) : m ≤ k := by
  induction h with
  | done m => exact Nat.le_refl m
  | page _ _ _ _ ih => omega

/-- the texts come soon enough -/
theorem le_attempts (h : Paced outcome m k texts) : k ≤ m + attempts * texts.length := by
  induction h with
  | done m => exact Nat.le_add_right _ _
  | page hj _ _ _ ih =>
    rw [List.length_cons, Nat.mul_succ]
    omega

theorem successes_eq (h : Paced outcome m k texts) :
    successes outcome (List.range' m (k - m)) = texts := by
  induction h with
  | done m =>
    rw [Nat.sub_self]
    rfl
  | @page m j k text texts _ hfails hpage hrest ih =>
    have hle := hrest.le
    have hsplit : List.range' m (k - m) =
        List.range' m j ++ (m + j) :: List.range' (m + j + 1) (k - (m + j + 1)) := by
      have hlength : k - m = j + (k - (m + j + 1) + 1) := by omega
      rw [hlength, ← List.range'_append_1, List.range'_succ]
    have htext : successes outcome ((m + j) :: List.range' (m + j + 1) (k - (m + j + 1))) =
        text :: texts := by
      unfold successes at ih ⊢
      rw [List.filterMap_cons, hpage, ih]
      rfl
    rw [hsplit, successes_append, successes_eq_nil hfails, htext, List.nil_append]

/-- the last attempt is a text -/
theorem last (h : Paced outcome m k texts) (hmk : m < k) : ∃ text, outcome (k - 1) = .ok text := by
  induction h with
  | done m => exact absurd hmk (Nat.lt_irrefl m)
  | @page m j k text texts _ _ hpage hrest ih =>
    rcases Nat.lt_or_eq_of_le hrest.le with hlt | rfl
    · exact ih hlt
    · exact ⟨text, hpage⟩

/-- there are never too many failures in a row -/
theorem exists_success (h : Paced outcome m k texts) {i : Nat} (hm : m ≤ i)
    (hk : i + attempts ≤ k) : ∃ n, i ≤ n ∧ n < i + attempts ∧ ∃ text, outcome n = .ok text := by
  induction h with
  | done m =>
    have : attempts = 16 := rfl
    omega
  | @page m j k text texts hj _ hpage hrest ih =>
    rcases Nat.lt_or_ge (m + j) i with hlater | hnow
    · exact ih hlater hk
    · exact ⟨m + j, hnow, by omega, text, hpage⟩

end Paced

/-! ## one page -/

section
variable (e : Expander) (start : String) (stream : Random.RandomStream)

/-- what attempt `n` comes to, the first having number zero -/
def outcomes (n : Nat) : Except ExpansionError String :=
  (e.generate .uniform start (Session.streamAfter e start stream n)).1

variable {e start stream}

theorem generate_at (n : Nat) :
    e.generate .uniform start (Session.streamAfter e start stream n) =
      (outcomes e start stream n, Session.streamAfter e start stream (n + 1)) := rfl

variable (hlimit : ∀ n cause, outcomes e start stream n = .error cause → cause.isLimit = true)

include hlimit

/-- A page comes after some failures, or all attempts fail. -/
theorem drawWithin_cases (more n : Nat) :
    (∃ j ≤ more, ∃ page, (∀ i < j, ∃ cause, outcomes e start stream (n + i) = .error cause) ∧
      outcomes e start stream (n + j) = .ok page ∧
      drawWithin e .uniform start more (Session.streamAfter e start stream n) =
        (.ok page, Session.streamAfter e start stream (n + j + 1))) ∨
    ∃ cause, (∀ i ≤ more, ∃ cause, outcomes e start stream (n + i) = .error cause) ∧
      outcomes e start stream (n + more) = .error cause ∧
      drawWithin e .uniform start more (Session.streamAfter e start stream n) =
        (.error cause, Session.streamAfter e start stream (n + more + 1)) := by
  induction more generalizing n with
  | zero =>
    cases hfirst : outcomes e start stream n with
    | ok page =>
      refine .inl ⟨0, Nat.le_refl 0, page, nofun, hfirst, ?_⟩
      rw [drawWithin, generate_at, hfirst]
    | error cause =>
      refine .inr ⟨cause, fun i hi => ?_, rfl, ?_⟩
      · rw [Nat.le_zero.mp hi]
        exact ⟨cause, hfirst⟩
      · rw [drawWithin, generate_at, hfirst]
  | succ more ih =>
    cases hfirst : outcomes e start stream n with
    | ok page =>
      refine .inl ⟨0, Nat.zero_le _, page, nofun, hfirst, ?_⟩
      rw [drawWithin, generate_at, hfirst]
    | error cause =>
      -- a limit: the attempts after this one
      have hagain : drawWithin e .uniform start (more + 1) (Session.streamAfter e start stream n) =
          drawWithin e .uniform start more (Session.streamAfter e start stream (n + 1)) := by
        rw [drawWithin, generate_at, hfirst]
        dsimp only
        rw [if_pos (hlimit n cause hfirst)]
      have hshift : ∀ i, n + 1 + i = n + (i + 1) := fun i => by omega
      have hfails : ∀ {j}, (∀ i < j, ∃ cause, outcomes e start stream (n + 1 + i) = .error cause) →
          ∀ i < j + 1, ∃ cause, outcomes e start stream (n + i) = .error cause := by
        intro j hj i hi
        cases i with
        | zero => exact ⟨cause, hfirst⟩
        | succ i => exact hshift i ▸ hj i (by omega)
      rw [hagain]
      rcases ih (n + 1) with ⟨j, hj, page, hbefore, hpage, hdraw⟩ | ⟨last, hall, hlast, hdraw⟩
      · refine .inl ⟨j + 1, by omega, page, hfails hbefore, hshift j ▸ hpage, ?_⟩
        rw [hdraw, hshift]
      · refine .inr ⟨last, fun i hi => ?_, hshift more ▸ hlast, ?_⟩
        · exact hfails (j := more + 1) (fun i hi => hall i (by omega)) i (by omega)
        · rw [hdraw, hshift]

end

/-! ## all pages -/

section
variable {σ τ : Type} {e : Expander} {c : Chooser σ} {start : String}

/-- Texts drawn one after another, from one state of the chooser to another. -/
def Drawn (e : Expander) (c : Chooser σ) (start : String) : σ → List String → σ → Prop
  | s, [], s' => s = s'
  | s, text :: texts, s' =>
    ∃ next, drawPage e c start s = (.ok text, next) ∧ Drawn e c start next texts s'

/-- Texts written one after another as the pages from number `n` on. -/
def Written (store : Storage τ) (dir : Path) : Nat → List String → τ → τ → Prop
  | _, [], files, files' => files = files'
  | n, text :: texts, files, files' =>
    ∃ next, store.write files (pagePath dir n) text = (.ok (), next) ∧
      Written store dir (n + 1) texts next files'

/-- the paths of so many pages from number `n` on -/
def pagePaths (dir : Path) (n count : Nat) : List Path := (List.range' n count).map (pagePath dir)

theorem append_pagePaths (written : List Path) (dir : Path) (n count : Nat) :
    (pagePath dir n :: written).reverse ++ pagePaths dir (n + 1) count =
      written.reverse ++ pagePaths dir n (count + 1) := by
  rw [List.reverse_cons, List.append_assoc, pagePaths, pagePaths, List.range'_succ, List.map_cons]
  rfl

/-- Some pages are drawn and written; then all are done, or the next page can not be drawn, or it
can not be written. -/
theorem writePages_ends {store : Storage τ} {dir : Path} {count n : Nat} {written : List Path}
    {s s' : σ} {files files' : τ} {r : Except SessionError (List Path)}
    (h : writePages store dir e c start count n written s files = (r, s', files')) :
    ∃ texts s₁ files₁, Drawn e c start s texts s₁ ∧ Written store dir n texts files files₁ ∧
      (texts.length = count ∧ r = .ok (written.reverse ++ pagePaths dir n count) ∧ s' = s₁ ∧
          files' = files₁ ∨
        texts.length < count ∧ files' = files₁ ∧
          (∃ cause, drawPage e c start s₁ = (.error cause, s') ∧ r = .error (.expansion cause)) ∨
        texts.length < count ∧ ∃ text cause, drawPage e c start s₁ = (.ok text, s') ∧
          store.write files₁ (pagePath dir (n + texts.length)) text = (.error cause, files') ∧
          r = .error (.io (pagePath dir (n + texts.length)) cause)) := by
  induction count generalizing n written s files with
  | zero =>
    cases h
    refine ⟨[], _, _, rfl, rfl, .inl ⟨rfl, ?_, rfl, rfl⟩⟩
    rw [pagePaths, List.range'_zero, List.map_nil, List.append_nil]
  | succ count ih =>
    rw [writePages] at h
    cases hdraw : drawPage e c start s with
    | mk page next =>
      rw [hdraw] at h
      cases page with
      | error cause =>
        cases h
        exact ⟨[], s, _, rfl, rfl, .inr (.inl ⟨Nat.succ_pos count, rfl, cause, hdraw, rfl⟩)⟩
      | ok text =>
        dsimp only at h
        cases hwrite : store.write files (pagePath dir n) text with
        | mk answer files₂ =>
          rw [hwrite] at h
          cases answer with
          | error cause =>
            cases h
            exact ⟨[], s, _, rfl, rfl,
              .inr (.inr ⟨Nat.succ_pos count, text, cause, hdraw, hwrite, rfl⟩)⟩
          | ok _ =>
            obtain ⟨texts, s₁, files₁, hdrawn, hwritten, hend⟩ := ih h
            have hnumber : n + 1 + texts.length = n + (text :: texts).length := by
              rw [List.length_cons, Nat.add_right_comm]
              rfl
            rw [append_pagePaths, hnumber] at hend
            refine ⟨text :: texts, s₁, files₁, ⟨next, hdraw, hdrawn⟩, ⟨files₂, hwrite, hwritten⟩, ?_⟩
            rcases hend with ⟨hlength, hall⟩ | ⟨hlength, hfails⟩ | ⟨hlength, hfails⟩
            · exact .inl ⟨congrArg (· + 1) hlength, hall⟩
            · exact .inr (.inl ⟨Nat.succ_lt_succ hlength, hfails⟩)
            · exact .inr (.inr ⟨Nat.succ_lt_succ hlength, hfails⟩)

end

/-! ## all pages in one row of attempts -/

section
variable {τ : Type} {store : Storage τ} {dir : Path} {e : Expander} {start : String}
  {stream : Random.RandomStream}

/-- Pages that are drawn one after another are a row of attempts. -/
theorem paced_of_drawn
    (hlimit : ∀ n cause, outcomes e start stream n = .error cause → cause.isLimit = true)
    {m : Nat} {texts : List String} {s₁ : Random.RandomStream}
    (h : Drawn e .uniform start (Session.streamAfter e start stream m) texts s₁) :
    ∃ k, s₁ = Session.streamAfter e start stream k ∧ Paced (outcomes e start stream) m k texts := by
  induction texts generalizing m with
  | nil => exact ⟨m, Eq.symm h, .done m⟩
  | cons text texts ih =>
    obtain ⟨next, hdraw, hrest⟩ := h
    rcases drawWithin_cases hlimit (attempts - 1) m with
      ⟨j, hj, page, hbefore, hpage, hdrawn⟩ | ⟨cause, -, -, hdrawn⟩
    · rw [drawPage, hdrawn] at hdraw
      cases hdraw
      obtain ⟨k, hk, hpaced⟩ := ih hrest
      have hattempts : j < attempts := Nat.lt_of_le_of_lt hj (by decide)
      exact ⟨k, hk, .page hattempts hbefore hpage hpaced⟩
    · rw [drawPage, hdrawn] at hdraw
      cases hdraw

/-- A corpus is written page after page, until one can neither be drawn nor written. -/
theorem writePages_cases
    (hlimit : ∀ n cause, outcomes e start stream n = .error cause → cause.isLimit = true)
    {count n m : Nat} {written : List Path} {files files' : τ} {s' : Random.RandomStream}
    {r : Except SessionError (List Path)}
    (h : writePages store dir e .uniform start count n written
      (Session.streamAfter e start stream m) files = (r, s', files')) :
    (∃ texts k, r = .ok (written.reverse ++ pagePaths dir n count) ∧ texts.length = count ∧
      Paced (outcomes e start stream) m k texts ∧ Written store dir n texts files files') ∨
    (∃ texts k cause, r = .error (.expansion cause) ∧ texts.length < count ∧
      Paced (outcomes e start stream) m k texts ∧ Written store dir n texts files files' ∧
      (∀ i < attempts, ∃ cause, outcomes e start stream (k + i) = .error cause) ∧
      outcomes e start stream (k + (attempts - 1)) = .error cause) ∨
    ∃ path cause, r = .error (.io path cause) := by
  obtain ⟨texts, s₁, files₁, hdrawn, hwritten, hend⟩ := writePages_ends h
  obtain ⟨k, rfl, hpaced⟩ := paced_of_drawn hlimit hdrawn
  rcases hend with ⟨hlength, hr, -, rfl⟩ | ⟨hlength, rfl, cause, hdraw, hr⟩ |
    ⟨-, _, cause, -, -, hr⟩
  · exact .inl ⟨texts, k, hr, hlength, hpaced, hwritten⟩
  · rcases drawWithin_cases hlimit (attempts - 1) k with
      ⟨j, -, page, -, -, hpage⟩ | ⟨last, hall, hlast, hfails⟩
    · rw [drawPage, hpage] at hdraw
      cases hdraw
    · rw [drawPage, hfails] at hdraw
      cases hdraw
      exact .inr (.inl ⟨texts, k, cause, hr, hlength, hpaced, hwritten,
        fun i hi => hall i (Nat.le_sub_one_of_lt hi), hlast⟩)
  · exact .inr (.inr ⟨_, cause, hr⟩)

end

end PageFuzz.Corpus
