import Mathlib
import PageFuzz.Proofs.Derivation.Bounds
import PageFuzz.Proofs.Derivation.Language

/-!
# What limits do to a derivation

Two runs of the loop under different limits go alike, round by round, until the narrower limits are
crossed.  So narrow limits cut a derivation short and never change it, and the greatest height of
the stack and the length of the text tell exactly whether they do.

* `Limits.crossed?`         the limit that a reading is beyond;
* `Round.cut`               what becomes of a round under narrower limits;
* `round_cut`               one round under both limits;
* `exists_cut`              both runs up to the end of the narrower one;
* `grows_round`             draws and text only grow;
* `isGreatest_peak`         the greatest height of the stack;
* `Crosses`                 the wider run goes beyond a limit of the narrower one;
* `generate_of_limits_le`   the runs as a whole.
-/

namespace PageFuzz

/-- the limit that a reading is beyond, if it is beyond one -/
def Limits.crossed? (l : Limits) (r : Reading) : Option ExpansionError :=
  if l.maxDepth < r.frames.length then some (.depthExceeded l.maxDepth)
  else if l.maxOutput < r.text.utf8ByteSize then some (.outputExceeded l.maxOutput)
  else none

theorem Limits.crossed?_eq_none {l : Limits} {r : Reading} :
    l.crossed? r = none ↔
      r.frames.length ≤ l.maxDepth ∧ r.text.utf8ByteSize ≤ l.maxOutput := by
  unfold crossed?
  split
  · next h => exact ⟨nofun, fun hr => absurd h (Nat.not_lt.mpr hr.1)⟩
  · next hheight =>
    split
    · next h => exact ⟨nofun, fun hr => absurd h (Nat.not_lt.mpr hr.2)⟩
    · next hsize => exact ⟨fun _ => ⟨Nat.not_lt.mp hheight, Nat.not_lt.mp hsize⟩, fun _ => rfl⟩

theorem Limits.cases_of_crossed {l : Limits} {r : Reading} {err : ExpansionError}
    (h : l.crossed? r = some err)
    (hone : r.frames.length ≤ l.maxDepth ∨ r.text.utf8ByteSize ≤ l.maxOutput) :
    (l.maxDepth < r.frames.length ∧ r.text.utf8ByteSize ≤ l.maxOutput ∧
        err = .depthExceeded l.maxDepth) ∨
      r.frames.length ≤ l.maxDepth ∧ l.maxOutput < r.text.utf8ByteSize ∧
        err = .outputExceeded l.maxOutput := by
  unfold crossed? at h
  split at h
  · next hheight =>
    cases h
    exact .inl ⟨hheight, hone.resolve_left (Nat.not_le.mpr hheight), rfl⟩
  · next hheight =>
    split at h
    · next hsize =>
      cases h
      exact .inr ⟨Nat.not_lt.mp hheight, hsize, rfl⟩
    · cases h

/-- the error that these limits give where others give this one -/
def Limits.restate (l : Limits) : ExpansionError → ExpansionError
  | .grammar fault => .grammar fault
  | .depthExceeded _ => .depthExceeded l.maxDepth
  | .outputExceeded _ => .outputExceeded l.maxOutput

namespace Expander

/-- what becomes of a round under narrower limits -/
def Round.cut (l : Limits) : Round → Round
  | .done (.ok text) => .done (.ok text)
  | .done (.error err) => .done (.error (l.restate err))
  | .next r =>
    match l.crossed? r with
    | some err => .done (.error err)
    | none => .next r

theorem Round.cut_eq_next {l : Limits} {x : Round} {r : Reading} (h : x.cut l = .next r) :
    x = .next r ∧ l.crossed? r = none := by
  match x, h with
  | .next r', h =>
    dsimp only [cut] at h
    split at h
    · cases h
    · next hwithin =>
      cases h
      exact ⟨rfl, hwithin⟩

theorem Round.cut_eq_ok {l : Limits} {x : Round} {text : String}
    (h : x.cut l = .done (.ok text)) : x = .done (.ok text) := by
  match x, h with
  | .done (.ok _), h => exact h
  | .next r, h =>
    dsimp only [cut] at h
    split at h <;> cases h

theorem Round.cut_next_eq_done {l : Limits} {r : Reading} {result : Except ExpansionError String}
    (h : (Round.next r).cut l = .done result) :
    ∃ err, l.crossed? r = some err ∧ result = .error err := by
  dsimp only [cut] at h
  split at h
  · next err hcrossed =>
    cases h
    exact ⟨err, hcrossed, rfl⟩
  · cases h

theorem Round.cut_next {l : Limits} {r : Reading} (h : l.crossed? r = none) :
    (Round.next r).cut l = .next r := by
  rw [cut, h]

/-! ## a name, once its alternative is chosen -/

section
variable {σ : Type} (e : Expander) (c : Chooser σ)

def visitChosen (r : Reading) : Alternative → Except ExpansionError Reading
  | .literal piece => e.emit piece r
  | .sequence symbols =>
    if e.limits.maxDepth ≤ r.frames.length then .error (.depthExceeded e.limits.maxDepth)
    else .ok { r with frames := ⟨symbols, 0⟩ :: r.frames }

/-- A name has alternatives to choose from, or it has none. -/
theorem alternatives_or_none (g : Grammar) (name : String) :
    (∃ a alts, g.alternatives? name = some (a :: alts)) ∨
      ∀ a alts, g.alternatives? name ≠ some (a :: alts) := by
  by_cases h : ∃ a alts, g.alternatives? name = some (a :: alts)
  · exact .inl h
  · exact .inr fun a alts ha => h ⟨a, alts, ha⟩

theorem visit_of_alternatives {name : String} {a : Alternative} {alts : List Alternative}
    (h : e.grammar.alternatives? name = some (a :: alts)) (r : Reading) (s : σ) :
    e.visit c name r s =
      (e.visitChosen r (clamped a alts (c.pick s (alts.length + 1)).1),
        (c.pick s (alts.length + 1)).2) := by
  unfold visit
  rw [h]
  dsimp only
  cases clamped a alts (c.pick s (alts.length + 1)).1 with
  | literal piece => rfl
  | sequence symbols =>
    dsimp only [visitChosen]
    split <;> rfl

theorem visit_of_no_alternatives {name : String}
    (h : ∀ a alts, e.grammar.alternatives? name ≠ some (a :: alts)) (r : Reading) (s : σ) :
    e.visit c name r s = (.error (.grammar (.undefined name none)), s) := by
  unfold visit
  split
  · next a alts hg => exact absurd hg (h a alts)
  · rfl

end

section
variable {g : Grammar} {lo hi : Limits} {σ : Type} (c : Chooser σ)

/-! ## one round under both limits -/

theorem emit_cut (hout : lo.maxOutput ≤ hi.maxOutput) (piece : String) {r : Reading}
    (hr : r.frames.length ≤ lo.maxDepth) :
    Round.ofExcept (emit ⟨g, lo⟩ piece r) = (Round.ofExcept (emit ⟨g, hi⟩ piece r)).cut lo := by
  let longer : Reading := { r with text := r.text ++ piece ++ " " }
  unfold emit Limits.append
  dsimp only
  by_cases hlo : lo.maxOutput < longer.text.utf8ByteSize
  · rw [if_pos hlo]
    by_cases hhi : hi.maxOutput < longer.text.utf8ByteSize
    · rw [if_pos hhi]
      rfl
    · have hcrossed : lo.crossed? longer = some (.outputExceeded lo.maxOutput) := by
        rw [Limits.crossed?, if_neg (Nat.not_lt.mpr hr), if_pos hlo]
      rw [if_neg hhi]
      show _ = (Round.next longer).cut lo
      rw [Round.cut, hcrossed]
      rfl
  · have hhi : ¬ hi.maxOutput < longer.text.utf8ByteSize := by omega
    have hwithin : lo.crossed? longer = none :=
      Limits.crossed?_eq_none.mpr ⟨hr, Nat.not_lt.mp hlo⟩
    rw [if_neg hlo, if_neg hhi]
    exact (Round.cut_next hwithin).symm

theorem visitChosen_cut (hdepth : lo.maxDepth ≤ hi.maxDepth) (hout : lo.maxOutput ≤ hi.maxOutput)
    {r : Reading} (hr : lo.crossed? r = none) (a : Alternative) :
    Round.ofExcept (visitChosen ⟨g, lo⟩ r a) =
      (Round.ofExcept (visitChosen ⟨g, hi⟩ r a)).cut lo := by
  obtain ⟨hheight, hsize⟩ := Limits.crossed?_eq_none.mp hr
  cases a with
  | literal piece => exact emit_cut hout piece hheight
  | sequence symbols =>
    let higher : Reading := { r with frames := ⟨symbols, 0⟩ :: r.frames }
    dsimp only [visitChosen]
    by_cases hlo : lo.maxDepth ≤ r.frames.length
    · rw [if_pos hlo]
      by_cases hhi : hi.maxDepth ≤ r.frames.length
      · rw [if_pos hhi]
        rfl
      · have hover : lo.maxDepth < higher.frames.length := Nat.lt_succ_of_le hlo
        have hcrossed : lo.crossed? higher = some (.depthExceeded lo.maxDepth) := by
          rw [Limits.crossed?, if_pos hover]
        rw [if_neg hhi]
        show _ = (Round.next higher).cut lo
        rw [Round.cut, hcrossed]
        rfl
    · have hhi : ¬ hi.maxDepth ≤ r.frames.length := by omega
      have hwithin : lo.crossed? higher = none :=
        Limits.crossed?_eq_none.mpr ⟨Nat.lt_of_not_le hlo, hsize⟩
      rw [if_neg hlo, if_neg hhi]
      exact (Round.cut_next hwithin).symm

theorem visit_cut (hdepth : lo.maxDepth ≤ hi.maxDepth) (hout : lo.maxOutput ≤ hi.maxOutput)
    (name : String) {r : Reading} (hr : lo.crossed? r = none) (s : σ) :
    (visit ⟨g, lo⟩ c name r s).map Round.ofExcept id =
      ((visit ⟨g, hi⟩ c name r s).map Round.ofExcept id).map (Round.cut lo) id := by
  rcases alternatives_or_none g name with ⟨a, alts, hg⟩ | hnone
  · rw [visit_of_alternatives ⟨g, lo⟩ c hg, visit_of_alternatives ⟨g, hi⟩ c hg]
    exact Prod.ext (visitChosen_cut hdepth hout hr _) rfl
  · rw [visit_of_no_alternatives ⟨g, lo⟩ c hnone, visit_of_no_alternatives ⟨g, hi⟩ c hnone]
    rfl

/-- One round under both limits: the narrower ones cut it where they are crossed. -/
theorem round_cut (hdepth : lo.maxDepth ≤ hi.maxDepth) (hout : lo.maxOutput ≤ hi.maxOutput)
    {r : Reading} (hr : lo.crossed? r = none) (s : σ) :
    round ⟨g, lo⟩ c r s = (round ⟨g, hi⟩ c r s).map (Round.cut lo) id := by
  obtain ⟨hheight, hsize⟩ := Limits.crossed?_eq_none.mp hr
  obtain ⟨frames, text⟩ := r
  match frames with
  | [] => rfl
  | f :: fs =>
    have honward : lo.crossed? ⟨{ f with next := f.next + 1 } :: fs, text⟩ = none :=
      Limits.crossed?_eq_none.mpr ⟨hheight, hsize⟩
    unfold round
    dsimp only
    cases f.symbols[f.next]? with
    | none =>
      have hwithin : lo.crossed? ⟨fs, text⟩ = none :=
        Limits.crossed?_eq_none.mpr ⟨Nat.le_of_succ_le hheight, hsize⟩
      exact Prod.ext (Round.cut_next hwithin).symm rfl
    | some sym =>
      cases sym with
      | terminal piece => exact Prod.ext (emit_cut hout piece hheight) rfl
      | nonterminal name => exact visit_cut c hdepth hout name honward s

end

/-! ## the runs up to the end of the narrower one -/

section
variable {σ : Type} {e : Expander} {c : Chooser σ} {start : String} {s s' : σ} {n : Nat}

theorem rounds_succ_of_next {r : Reading} (h : e.rounds c start s n = (.next r, s')) :
    e.rounds c start s (n + 1) = e.round c r s' := by
  rw [rounds, h]

theorem rounds_succ_of_done {result : Except ExpansionError String}
    (h : e.rounds c start s n = (.done result, s')) :
    e.rounds c start s (n + 1) = (.done result, s') := by
  rw [rounds, h]

/-- The loop goes on for ever with what it has ended with. -/
theorem rounds_of_done {result : Except ExpansionError String}
    (h : e.rounds c start s n = (.done result, s')) {m : Nat} (hm : n ≤ m) :
    e.rounds c start s m = (.done result, s') := by
  induction hm with
  | refl => exact h
  | step _ ih => exact rounds_succ_of_done ih

theorem generate_of_done {result : Except ExpansionError String}
    (h : e.rounds c start s n = (.done result, s')) : e.generate c start s = (result, s') := by
  rcases rounds_cases e c start s n with ⟨result', s₁, hended, hgenerate⟩ | ⟨r, s₁, hgoes, -⟩
  · rw [h] at hended
    cases hended
    exact hgenerate
  · rw [h] at hgoes
    cases hgoes

theorem exists_done_after (e : Expander) (c : Chooser σ) (start : String) (s : σ) (n : Nat) :
    ∃ m, n ≤ m ∧
      e.rounds c start s m = (.done (e.generate c start s).1, (e.generate c start s).2) :=
  ⟨_, Nat.le_max_left n ((e.grammar.width + 2) ^ e.limits.maxDepth),
    rounds_of_done (rounds_eq_generate e c start s) (Nat.le_max_right _ _)⟩

/-- The first round that ends the loop. -/
theorem exists_first_done (e : Expander) (c : Chooser σ) (start : String) (s : σ) :
    ∃ n, e.rounds c start s n = (.done (e.generate c start s).1, (e.generate c start s).2) ∧
      ∀ k < n, ∃ r s', e.rounds c start s k = (.next r, s') := by
  classical
  have hends : ∃ n result s', e.rounds c start s n = (.done result, s') :=
    ⟨_, _, _, rounds_eq_generate e c start s⟩
  obtain ⟨result, s', hdone⟩ := Nat.find_spec hends
  refine ⟨Nat.find hends, ?_, fun k hk => ?_⟩
  · rw [generate_of_done hdone, hdone]
  · have hgoes := Nat.find_min hends hk
    cases hround : e.rounds c start s k with
    | mk turn s₁ =>
      cases turn with
      | done result => exact absurd ⟨result, s₁, hround⟩ hgoes
      | next r => exact ⟨r, s₁, rfl⟩

end

section
variable {g : Grammar} {lo hi : Limits} {σ : Type} {c : Chooser σ} {start : String} {s : σ}

theorem map_cut_eq_next {x : Round × σ} {r : Reading} {s' : σ}
    (h : x.map (Round.cut lo) id = (.next r, s')) : x = (.next r, s') ∧ lo.crossed? r = none := by
  obtain ⟨turn, s₁⟩ := x
  obtain ⟨hnext, rfl⟩ := Prod.mk.inj h
  obtain ⟨rfl, hwithin⟩ := Round.cut_eq_next hnext
  exact ⟨rfl, hwithin⟩

/-- As long as the narrower run has not ended before, its rounds are the cut ones of the wider
run. -/
theorem rounds_cut (hdepth : lo.maxDepth ≤ hi.maxDepth) (hout : lo.maxOutput ≤ hi.maxOutput)
    {n : Nat} (hgoes : ∀ k < n, ∃ r s', rounds ⟨g, lo⟩ c start s k = (.next r, s')) :
    rounds ⟨g, lo⟩ c start s n = (rounds ⟨g, hi⟩ c start s n).map (Round.cut lo) id := by
  induction n with
  | zero =>
    have hempty : lo.crossed? ⟨[], ""⟩ = none :=
      Limits.crossed?_eq_none.mpr ⟨Nat.zero_le _, Nat.zero_le _⟩
    exact visit_cut c hdepth hout start hempty s
  | succ n ih =>
    obtain ⟨r, s', hlo⟩ := hgoes n (Nat.lt_succ_self n)
    have hcut := ih fun k hk => hgoes k (Nat.lt_succ_of_lt hk)
    obtain ⟨hhi, hwithin⟩ := map_cut_eq_next (hcut.symm.trans hlo)
    rw [rounds_succ_of_next hlo, rounds_succ_of_next hhi]
    exact round_cut c hdepth hout hwithin s'

/-- Both runs up to the end of the narrower one. -/
theorem exists_cut (hdepth : lo.maxDepth ≤ hi.maxDepth) (hout : lo.maxOutput ≤ hi.maxOutput)
    (g : Grammar) (c : Chooser σ) (start : String) (s : σ) :
    ∃ n turn s', rounds ⟨g, hi⟩ c start s n = (turn, s') ∧
      turn.cut lo = .done (generate ⟨g, lo⟩ c start s).1 ∧ s' = (generate ⟨g, lo⟩ c start s).2 ∧
      ∀ k < n, ∃ r s', rounds ⟨g, hi⟩ c start s k = (.next r, s') ∧ lo.crossed? r = none := by
  obtain ⟨n, hdone, hgoes⟩ := exists_first_done ⟨g, lo⟩ c start s
  have hcut := rounds_cut hdepth hout hgoes
  obtain ⟨hturn, hstate⟩ := Prod.mk.inj (hcut.symm.trans hdone)
  refine ⟨n, _, _, rfl, hturn, hstate, fun k hk => ?_⟩
  obtain ⟨r, s', hlo⟩ := hgoes k hk
  have hbefore := rounds_cut hdepth hout fun j hj => hgoes j (Nat.lt_trans hj hk)
  exact ⟨r, s', map_cut_eq_next (hbefore.symm.trans hlo)⟩

end

/-! ## what grows -/

/-- so many bytes have been written at least, unless the run has failed -/
def Round.AtLeast (bytes : Nat) : Round → Prop
  | .next r => bytes ≤ r.text.utf8ByteSize
  | .done (.ok text) => bytes ≤ text.utf8ByteSize
  | .done (.error _) => True

theorem Round.atLeast_zero (x : Round) : x.AtLeast 0 := by
  match x with
  | .next r => exact Nat.zero_le _
  | .done (.ok text) => exact Nat.zero_le _
  | .done (.error err) => exact trivial

section
variable {σ : Type} {e : Expander} {c : Chooser σ} {bytes : Nat}

theorem atLeast_emit {r : Reading} (h : bytes ≤ r.text.utf8ByteSize) (piece : String) :
    (Round.ofExcept (e.emit piece r)).AtLeast bytes := by
  unfold emit Limits.append
  dsimp only
  split
  · exact trivial
  · show bytes ≤ (r.text ++ piece ++ " ").utf8ByteSize
    rw [String.append_assoc, String.utf8ByteSize_append]
    exact Nat.le_add_right_of_le h

theorem atLeast_visitChosen {r : Reading} (h : bytes ≤ r.text.utf8ByteSize) (a : Alternative) :
    (Round.ofExcept (e.visitChosen r a)).AtLeast bytes := by
  cases a with
  | literal piece => exact atLeast_emit h piece
  | sequence symbols =>
    dsimp only [visitChosen]
    split
    · exact trivial
    · exact h

/-- A visit draws once at most, and takes nothing off the text. -/
theorem grows_visit {r : Reading} (h : bytes ≤ r.text.utf8ByteSize) (name : String)
    (s : σ × Array Draw) :
    (Round.ofExcept (e.visit c.recording name r s).1).AtLeast bytes ∧
      s.2.toList <+: (e.visit c.recording name r s).2.2.toList := by
  rcases alternatives_or_none e.grammar name with ⟨a, alts, hg⟩ | hnone
  · rw [visit_of_alternatives e c.recording hg]
    refine ⟨atLeast_visitChosen h _, ?_⟩
    show s.2.toList <+: (s.2.push ⟨alts.length + 1, _⟩).toList
    rw [Array.toList_push]
    exact List.prefix_append _ _
  · rw [visit_of_no_alternatives e c.recording hnone]
    exact ⟨trivial, List.prefix_rfl⟩

theorem grows_round {r : Reading} (h : bytes ≤ r.text.utf8ByteSize) (s : σ × Array Draw) :
    (e.round c.recording r s).1.AtLeast bytes ∧
      s.2.toList <+: (e.round c.recording r s).2.2.toList := by
  obtain ⟨frames, text⟩ := r
  match frames with
  | [] => exact ⟨h, List.prefix_rfl⟩
  | f :: fs =>
    have honward : bytes ≤
        (⟨{ f with next := f.next + 1 } :: fs, text⟩ : Reading).text.utf8ByteSize := h
    unfold round
    dsimp only
    cases f.symbols[f.next]? with
    | none => exact ⟨h, List.prefix_rfl⟩
    | some sym =>
      cases sym with
      | terminal piece => exact ⟨atLeast_emit honward piece, List.prefix_rfl⟩
      | nonterminal name => exact grows_visit honward name s

theorem grows_rounds {start : String} {s : σ × Array Draw} {k : Nat}
    (h : (e.rounds c.recording start s k).1.AtLeast bytes) {m : Nat} (hm : k ≤ m) :
    (e.rounds c.recording start s m).1.AtLeast bytes ∧
      (e.rounds c.recording start s k).2.2.toList <+:
        (e.rounds c.recording start s m).2.2.toList := by
  induction hm with
  | refl => exact ⟨h, List.prefix_rfl⟩
  | @step m _ ih =>
    obtain ⟨hleast, hdraws⟩ := ih
    cases hround : e.rounds c.recording start s m with
    | mk turn s₁ =>
      rw [hround] at hleast hdraws
      cases turn with
      | done result =>
        rw [rounds_succ_of_done hround]
        exact ⟨hleast, hdraws⟩
      | next r =>
        obtain ⟨hmore, hlonger⟩ := grows_round (e := e) (c := c) hleast s₁
        rw [rounds_succ_of_next hround]
        exact ⟨hmore, hdraws.trans hlonger⟩

/-- Whatever the run has written on the way is in its text. -/
theorem size_le_of_rounds {start : String} {s : σ × Array Draw} {n : Nat} {r : Reading}
    {text : String} (hn : (e.rounds c.recording start s n).1 = .next r)
    (h : (e.generate c.recording start s).1 = .ok text) :
    r.text.utf8ByteSize ≤ text.utf8ByteSize := by
  obtain ⟨m, hm, hdone⟩ := exists_done_after e c.recording start s n
  have hleast : (e.rounds c.recording start s n).1.AtLeast r.text.utf8ByteSize := by
    rw [hn]
    exact Nat.le_refl r.text.utf8ByteSize
  have hend := (grows_rounds hleast hm).1
  rw [hdone, h] at hend
  exact hend

end

/-! ## the greatest height of the stack -/

def Round.height : Round → Nat
  | .next r => r.frames.length
  | .done _ => 0

/-- the most sequences that a run has on its stack at once -/
def peak {σ : Type} (e : Expander) (c : Chooser σ) (start : String) (s : σ) : Nat :=
  (Finset.range ((e.grammar.width + 2) ^ e.limits.maxDepth + 1)).sup fun n =>
    (e.rounds c start s n).1.height

section
variable {σ : Type} (e : Expander) (c : Chooser σ) (start : String) (s : σ)

theorem height_le_peak (n : Nat) : (e.rounds c start s n).1.height ≤ e.peak c start s := by
  rcases Nat.lt_or_ge n ((e.grammar.width + 2) ^ e.limits.maxDepth + 1) with hn | hn
  · exact Finset.le_sup (f := fun n => (e.rounds c start s n).1.height) (Finset.mem_range.mpr hn)
  · have hended := rounds_of_done (rounds_eq_generate e c start s) (Nat.le_of_succ_le hn)
    rw [hended]
    exact Nat.zero_le _

theorem isGreatest_peak :
    IsGreatest (Set.range fun n => (e.rounds c start s n).1.height) (e.peak c start s) := by
  refine ⟨?_, ?_⟩
  · have hsome : (Finset.range ((e.grammar.width + 2) ^ e.limits.maxDepth + 1)).Nonempty :=
      Finset.nonempty_range_add_one
    obtain ⟨n, -, hn⟩ := Finset.exists_mem_eq_sup _ hsome fun n => (e.rounds c start s n).1.height
    exact ⟨n, hn.symm⟩
  · rintro _ ⟨n, rfl⟩
    exact height_le_peak e c start s n

end

/-! ## one limit at a time -/

section
variable {σ : Type} {e : Expander} {c : Chooser σ} {r r' : Reading} {s s' : σ}

theorem frames_emit {piece : String} (h : e.emit piece r = .ok r') : r'.frames = r.frames := by
  unfold emit at h
  cases happend : e.limits.append r.text piece with
  | error err =>
    rw [happend] at h
    cases h
  | ok text =>
    rw [happend] at h
    cases h
    rfl

/-- A visit adds a sequence or some text, and not both. -/
theorem frames_or_text_visit {name : String} (h : e.visit c name r s = (.ok r', s')) :
    r'.frames = r.frames ∨ r'.text = r.text := by
  rcases alternatives_or_none e.grammar name with ⟨a, alts, hg⟩ | hnone
  · rw [visit_of_alternatives e c hg] at h
    obtain ⟨hchosen, -⟩ := Prod.mk.inj h
    generalize clamped a alts (c.pick s (alts.length + 1)).1 = chosen at hchosen
    cases chosen with
    | literal piece => exact .inl (frames_emit hchosen)
    | sequence symbols =>
      dsimp only [visitChosen] at hchosen
      split at hchosen
      · cases hchosen
      · cases hchosen
        exact .inr rfl
  · rw [visit_of_no_alternatives e c hnone] at h
    cases h

theorem height_or_text_round (h : e.round c r s = (.next r', s')) :
    r'.frames.length ≤ r.frames.length ∨ r'.text = r.text := by
  obtain ⟨frames, text⟩ := r
  match frames with
  | [] => cases h
  | f :: fs =>
    let onward : Reading := ⟨{ f with next := f.next + 1 } :: fs, text⟩
    have hheight : ∀ {r' : Reading}, r'.frames = onward.frames →
        r'.frames.length ≤ (f :: fs).length := fun hframes => by
      rw [hframes]
      exact Nat.le_refl _
    unfold round at h
    dsimp only at h
    split at h
    · cases h
      exact .inl (Nat.le_succ _)
    · obtain ⟨hnext, -⟩ := Prod.mk.inj h
      exact .inl (hheight (frames_emit (ofExcept_eq_next hnext)))
    · obtain ⟨hnext, hs⟩ := Prod.mk.inj h
      have hvisit := frames_or_text_visit (Prod.ext (ofExcept_eq_next hnext) hs)
      exact hvisit.imp_left hheight

/-- The first reading beyond a limit is within the other one. -/
theorem height_or_size_rounds {lo : Limits} {start : String} {n : Nat}
    (h : e.rounds c start s n = (.next r, s'))
    (hbefore : ∀ k < n, ∃ r s', e.rounds c start s k = (.next r, s') ∧ lo.crossed? r = none) :
    r.frames.length ≤ lo.maxDepth ∨ r.text.utf8ByteSize ≤ lo.maxOutput := by
  cases n with
  | zero =>
    obtain ⟨hnext, hs⟩ := Prod.mk.inj h
    have hvisit := frames_or_text_visit (Prod.ext (ofExcept_eq_next hnext) hs)
    refine hvisit.imp (fun hframes => ?_) (fun htext => ?_)
    · rw [hframes]
      exact Nat.zero_le _
    · rw [htext]
      exact Nat.zero_le _
  | succ n =>
    obtain ⟨r₀, s₀, hprior, hwithin⟩ := hbefore n (Nat.lt_succ_self n)
    obtain ⟨hheight, hsize⟩ := Limits.crossed?_eq_none.mp hwithin
    rw [rounds_succ_of_next hprior] at h
    refine (height_or_text_round h).imp (fun hle => Nat.le_trans hle hheight) (fun htext => ?_)
    rw [htext]
    exact hsize

end

/-! ## the runs as a whole -/

section
variable {lo hi : Limits} {σ : Type}

/-- The wider run goes beyond a narrower limit for the first time at the reading `r`, after `n`
rounds, and the narrower run ends with the error of that limit. -/
structure Crosses (wide : Expander) (lo : Limits) (c : Chooser σ) (start : String) (s : σ)
    (result : Except ExpansionError String) (n : Nat) (r : Reading) : Prop where
  stage_eq : (wide.rounds c start s n).1 = .next r
  before : ∀ k < n, ∃ r', (wide.rounds c start s k).1 = .next r' ∧
    r'.frames.length ≤ lo.maxDepth ∧ r'.text.utf8ByteSize ≤ lo.maxOutput
  result_eq : (lo.maxDepth < r.frames.length ∧ r.text.utf8ByteSize ≤ lo.maxOutput ∧
      result = .error (.depthExceeded lo.maxDepth)) ∨
    r.frames.length ≤ lo.maxDepth ∧ lo.maxOutput < r.text.utf8ByteSize ∧
      result = .error (.outputExceeded lo.maxOutput)

/-- If the wider run succeeds, the narrower one does so too and had room for the stack, or it ends
where a limit is crossed. -/
theorem generate_cases_of_wide (hdepth : lo.maxDepth ≤ hi.maxDepth)
    (hout : lo.maxOutput ≤ hi.maxOutput) {g : Grammar} {c : Chooser σ} {start text : String} {s : σ}
    (h : (generate ⟨g, hi⟩ c start s).1 = .ok text) :
    (generate ⟨g, lo⟩ c start s).1 = .ok text ∧ peak ⟨g, hi⟩ c start s ≤ lo.maxDepth ∨
      ∃ n r, Crosses ⟨g, hi⟩ lo c start s (generate ⟨g, lo⟩ c start s).1 n r := by
  obtain ⟨n, turn, s', hround, hcut, -, hbefore⟩ := exists_cut hdepth hout g c start s
  cases turn with
  | done result =>
    have hresult : result = .ok text := by
      rw [generate_of_done hround] at h
      exact h
    subst hresult
    have hless : (generate ⟨g, lo⟩ c start s).1 = .ok text := (Round.done.inj hcut).symm
    refine .inl ⟨hless, Finset.sup_le fun k _ => ?_⟩
    rcases Nat.lt_or_ge k n with hk | hk
    · obtain ⟨r, s₁, hgoes, hwithin⟩ := hbefore k hk
      rw [hgoes]
      exact (Limits.crossed?_eq_none.mp hwithin).1
    · rw [rounds_of_done hround hk]
      exact Nat.zero_le _
  | next r =>
    obtain ⟨err, hcrossed, hresult⟩ := Round.cut_next_eq_done hcut
    have hone := height_or_size_rounds hround hbefore
    refine .inr ⟨n, r, by rw [hround], fun k hk => ?_, ?_⟩
    · obtain ⟨r', s₁, hgoes, hwithin⟩ := hbefore k hk
      exact ⟨r', by rw [hgoes], Limits.crossed?_eq_none.mp hwithin⟩
    · rw [hresult, Except.error.injEq, Except.error.injEq]
      exact Limits.cases_of_crossed hcrossed hone

end

/-- **Limits cut a derivation short and never change it.**  Under narrower limits the draws are the
first ones of those under wider limits.  If the narrower run succeeds, the wider one is the same,
with its text, its draws and the state of the chooser.  If the wider run succeeds, the narrower one
does exactly if it has room for the greatest height of the stack and for the text; otherwise it
fails where the wider run first goes beyond one of the two limits, and with the error of that
limit. -/
theorem generate_of_limits_le (g : Grammar) {lo hi : Limits} (hdepth : lo.maxDepth ≤ hi.maxDepth)
    (hout : lo.maxOutput ≤ hi.maxOutput) (start : String) {σ : Type} (c : Chooser σ) (s : σ) :
    let narrow : Expander := ⟨g, lo⟩
    let wide : Expander := ⟨g, hi⟩
    let less := narrow.generate c.recording start (s, #[])
    let more := wide.generate c.recording start (s, #[])
    let stage := fun n => (wide.rounds c.recording start (s, #[]) n).1
    let peak := wide.peak c.recording start (s, #[])
    (narrow.generate c start s = (less.1, less.2.1) ∧
      wide.generate c start s = (more.1, more.2.1)) ∧
    less.2.2.toList <+: more.2.2.toList ∧
    (∀ text, less.1 = .ok text → more = less) ∧
    IsGreatest (Set.range fun n => (stage n).height) peak ∧
    ∀ text, more.1 = .ok text →
      (less.1 = .ok text ↔ peak ≤ lo.maxDepth ∧ text.utf8ByteSize ≤ lo.maxOutput) ∧
      (¬ (peak ≤ lo.maxDepth ∧ text.utf8ByteSize ≤ lo.maxOutput) →
        ∃ n r, wide.Crosses lo c.recording start (s, #[]) less.1 n r) := by
  intro narrow wide less more stage peak
  obtain ⟨n, turn, s', hround, hcut, hstate, hbefore⟩ :=
    exists_cut hdepth hout g c.recording start (s, #[])
  -- the wider run from where the narrower one has ended to its own end
  obtain ⟨m, hm, hlast⟩ := exists_done_after wide c.recording start (s, #[]) n
  refine ⟨⟨?_, ?_⟩, ?_, fun text hless => ?_, isGreatest_peak _ _ _ _, fun text hmore => ?_⟩
  · exact (generate_recording narrow c start s #[]).symm
  · exact (generate_recording wide c start s #[]).symm
  · have hzero : (wide.rounds c.recording start (s, #[]) n).1.AtLeast 0 := Round.atLeast_zero _
    have hgrows := (grows_rounds hzero hm).2
    rw [hlast, hround, hstate] at hgrows
    exact hgrows
  · have hturn : turn = .done (.ok text) := Round.cut_eq_ok (hcut.trans (congrArg Round.done hless))
    subst hturn
    have hmore : more = (.ok text, s') := generate_of_done hround
    rw [hmore, hstate]
    exact Prod.ext hless.symm rfl
  · have hsize : less.1 = .ok text → text.utf8ByteSize ≤ lo.maxOutput := by
      intro hless
      obtain ⟨-, -, -, -, hsize, -⟩ := tree_of_generate (Prod.ext hless rfl : less = (.ok text, _))
      exact hsize
    rcases generate_cases_of_wide hdepth hout hmore with ⟨hless, hpeak⟩ | ⟨k, r, hcrosses⟩
    · have hroom := And.intro hpeak (hsize hless)
      exact ⟨⟨fun _ => hroom, fun _ => hless⟩, fun hnot => absurd hroom hnot⟩
    · -- beyond a limit once, beyond it at the end
      have hbeyond : ¬ (peak ≤ lo.maxDepth ∧ text.utf8ByteSize ≤ lo.maxOutput) := by
        rintro ⟨hpeak, htext⟩
        rcases hcrosses.result_eq with ⟨hheight, -⟩ | ⟨-, hlong, -⟩
        · have hle := height_le_peak wide c.recording start (s, #[]) k
          rw [hcrosses.stage_eq] at hle
          have hle : r.frames.length ≤ peak := hle
          omega
        · have hle := size_le_of_rounds hcrosses.stage_eq hmore
          omega
      refine ⟨⟨fun hless => ?_, fun hroom => absurd hroom hbeyond⟩, fun _ => ⟨k, r, hcrosses⟩⟩
      rcases hcrosses.result_eq with ⟨-, -, hfailed⟩ | ⟨-, -, hfailed⟩
      · rw [hless] at hfailed
        cases hfailed
      · rw [hless] at hfailed
        cases hfailed

/-- Two pairs of parentheses where there is room for one, so that the stack had to be higher; and
where one byte is missing, although the stack is not too high. -/
theorem generate_of_limits_le_of_parentheses :
    let g : Grammar :=
      ⟨[("s", [.sequence [.terminal "(", .nonterminal "s", .terminal ")"], .sequence []])]⟩
    let run := fun limits : Limits =>
      (Expander.mk g limits).generate (Chooser.scripted 1).recording "s" ([0, 0], #[])
    let height := peak ⟨g, ⟨3, 8⟩⟩ (Chooser.scripted 1).recording "s" ([0, 0], #[])
    (run ⟨3, 8⟩).1 = .ok "( ( ) ) " ∧ (run ⟨2, 8⟩).1 = .error (.depthExceeded 2) ∧
      (run ⟨3, 7⟩).1 = .error (.outputExceeded 7) ∧ height = 3 ∧
      (run ⟨2, 8⟩).2.2.toList <+: (run ⟨3, 8⟩).2.2.toList ∧ run ⟨9, 9⟩ = run ⟨3, 8⟩ := by
  intro g run height
  have hwide : (run ⟨3, 8⟩).1 = .ok "( ( ) ) " := by
    dsimp only [run, g]
    cbv
  have hlow : (run ⟨2, 8⟩).1 = .error (.depthExceeded 2) := by
    dsimp only [run, g]
    cbv
  have hshort : (run ⟨3, 7⟩).1 = .error (.outputExceeded 7) := by
    dsimp only [run, g]
    cbv
  have hsize : "( ( ) ) ".utf8ByteSize ≤ 8 := by decide
  obtain ⟨-, hprefix, -, -, htwo⟩ := @generate_of_limits_le g ⟨2, 8⟩ ⟨3, 8⟩ (by decide)
    (by decide) "s" _ (.scripted 1) [0, 0]
  obtain ⟨-, -, -, -, hthree⟩ := @generate_of_limits_le g ⟨3, 8⟩ ⟨3, 8⟩ (by decide)
    (by decide) "s" _ (.scripted 1) [0, 0]
  obtain ⟨-, -, hsame, -⟩ := @generate_of_limits_le g ⟨3, 8⟩ ⟨9, 9⟩ (by decide)
    (by decide) "s" _ (.scripted 1) [0, 0]
  have hle : height ≤ 3 := ((hthree _ hwide).1.mp hwide).1
  have hlt : ¬ height ≤ 2 := by
    intro hheight
    have hok := (htwo _ hwide).1.mpr ⟨hheight, hsize⟩
    rw [hlow] at hok
    cases hok
  exact ⟨hwide, hlow, hshort, by omega, hprefix, hsame _ hwide⟩

end Expander

end PageFuzz
