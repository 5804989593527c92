import Mathlib
import PageFuzz.Derivation.Uniform
import PageFuzz.Proofs.Derivation.Refinement
import PageFuzz.Proofs.Random.Shares

/-!
# The random chooser needs no clamp

A chooser that answers every question in range is never corrected by the expander: each draw of
each run stands as it was answered.  The random chooser is one of them, and it gives every answer
the same chance, because each number below the bound has the same count of accepted words.

* `Chooser.InRange`         one of `n` alternatives is picked, if there is one;
* `Draw.clamped_of_lt`      a draw in range is its own clamp;
* `Expander.fits_step`      a step draws in range;
* `Expander.fits_generate`  and so does a run;
* `Chooser.uniform_fair`    the words behind each answer of the random chooser, and what the
                            expander makes of its answers.
-/

namespace PageFuzz

/-- what is asked of a chooser: out of `n` alternatives it picks one -/
def Chooser.InRange {σ : Type} (c : Chooser σ) : Prop := ∀ s n, 0 < n → (c.pick s n).1 < n

theorem Chooser.inRange_uniform : Chooser.uniform.InRange := fun s _ hpos => uniform_pick_lt hpos s

theorem Draw.clamped_of_lt {d : Draw} (h : d.pick < d.count) : d.clamped = d := by
  have hmin : min d.pick (d.count - 1) = d.pick := min_eq_left (Nat.le_sub_one_of_lt h)
  rw [clamped, hmin]

/-- all draws were answered in range -/
def Draw.Fit (draws : Array Draw) : Prop := ∀ d ∈ draws, d.pick < d.count

namespace Expander

section
variable {σ : Type} {c : Chooser σ} {draws : Array Draw}

theorem fits_pick (hc : c.InRange) (hfit : Draw.Fit draws) (s : σ) (n : Nat) :
    Draw.Fit (c.recording.pick (s, draws) (n + 1)).2.2 := by
  intro d hd
  rcases Array.mem_push.mp hd with hold | rfl
  · exact hfit d hold
  · exact hc s (n + 1) (Nat.succ_pos n)

/-- A name is entered with one draw among its alternatives, or with none if it has no rule. -/
theorem fits_enter (hc : c.InRange) (e : Expander) (name : String) (w : Work) (s : σ)
    (hfit : Draw.Fit draws) : Draw.Fit (e.enter c.recording name w (s, draws)).2.2 := by
  unfold enter
  split
  · exact fits_pick hc hfit s _
  · exact hfit

theorem fits_step (hc : c.InRange) (e : Expander) (w : Work) (s : σ) (hfit : Draw.Fit draws) :
    Draw.Fit (e.step c.recording w (s, draws)).2.2 := by
  obtain ⟨⟨frames, depth, hdepth⟩, text⟩ := w
  match frames, hdepth with
  | [], hdepth => exact hfit
  | [] :: fs, hdepth => exact hfit
  | (.terminal piece :: f) :: fs, hdepth =>
    simp only [step]
    split <;> exact hfit
  | (.nonterminal name :: f) :: fs, hdepth =>
    have henter := fits_enter hc e name ⟨⟨f :: fs, depth, hdepth⟩, text⟩ s hfit
    simp only [step]
    cases hentered : e.enter c.recording name ⟨⟨f :: fs, depth, hdepth⟩, text⟩ (s, draws) with
    | mk entered s' =>
      rw [hentered] at henter
      cases entered <;> exact henter

/-- A whole run draws in range.  `remaining` falls with each step. -/
theorem fits_run (hc : c.InRange) (e : Expander) (w : Work) (s : σ) (hfit : Draw.Fit draws) :
    Draw.Fit (e.run c.recording w (s, draws)).2.2 := by
  induction hn : e.remaining w using Nat.strongRecOn generalizing w s draws with
  | ind n ih =>
    have hafter := fits_step hc e w s hfit
    cases hstep : e.step c.recording w (s, draws) with
    | mk turn s' =>
      rw [hstep] at hafter
      cases turn with
      | done result =>
        rw [run_of_done e c.recording hstep]
        exact hafter
      | next w' =>
        have hless : e.remaining w' < n := hn ▸ remaining_step hstep
        rw [run_of_next e c.recording hstep]
        exact ih _ hless w' s'.1 hafter rfl

theorem fits_generate (hc : c.InRange) (e : Expander) (start : String) (s : σ) :
    Draw.Fit (e.generate c.recording start (s, #[])).2.2 := by
  have hnone : Draw.Fit #[] := fun d hd => absurd hd (Array.not_mem_empty d)
  have henter := fits_enter hc e start ⟨.empty, ""⟩ s hnone
  rw [generate]
  cases hentered : e.enter c.recording start ⟨.empty, ""⟩ (s, #[]) with
  | mk entered s' =>
    rw [hentered] at henter
    cases entered with
    | error err => exact henter
    | ok w => exact fits_run hc e w s'.1 henter

end

end Expander

namespace Chooser

open PageFuzz.Random

/-- **The random chooser is fair, and never out of range.**  For a bound of 64 bits the zone is what
wrapping words make of the bound; an accepted word stands for a number below the bound, every such
number has the same power of two of words, and half of all words or more are accepted.  The loop
that draws until a word is accepted answers below the bound, and its answer is the chooser's.  So
the chooser keeps what is asked of it, and in no run does the expander change one of its answers. -/
theorem uniform_fair (n : Nat) (hpos : 0 < n) (hlt : n < UInt64.size) :
    zone n = (BitVec.ofNat 64 n <<< (BitVec.ofNat 64 n).clz - 1#64).toNat ∧
      (∀ v, accepts n v = true → share n v < n) ∧
      (∀ k < n, (Finset.univ.filter fun v : UInt64 => accepts n v = true ∧ share n v = k).card =
        2 ^ leadingZeros n) ∧
      UInt64.size ≤ 2 * (Finset.univ.filter fun v : UInt64 => accepts n v = true).card ∧
      (∀ s r k s', Picks n s r k s' → k < n ∧ (r ≤ patience → uniform.pick s n = (k, s'))) ∧
      (∀ s, (uniform.pick s n).1 < n) ∧
      ∀ (e : Expander) (start : String) (s : RandomStream),
        ∀ d ∈ (e.generate uniform.recording start (s, #[])).2.2,
          d.pick < d.count ∧ d.clamped = d := by
  refine ⟨zone_eq_word hpos hlt, fun v _ => share_lt hpos v, fun k hk => card_share hpos hlt hk, ?_,
    fun s r k s' h => ⟨h.lt hpos, h.below_eq⟩, fun s => inRange_uniform s n hpos, ?_⟩
  · have hhalf := (shifted_bounds hpos hlt).1
    have hsize : UInt64.size = 2 * 2 ^ 63 := rfl
    rw [card_accepts hpos hlt, hsize]
    exact Nat.mul_le_mul_left 2 hhalf
  · intro e start s d hd
    have hrange := Expander.fits_generate inRange_uniform e start s d hd
    exact ⟨hrange, Draw.clamped_of_lt hrange⟩

/-- Six alternatives, and one more than half of what a word can count: there no number has more than
one word. -/
theorem uniform_fair_of_six :
    (Finset.univ.filter fun v : UInt64 => accepts 6 v = true ∧ share 6 v = 5).card = 2 ^ 61 ∧
      (Finset.univ.filter fun v : UInt64 => accepts (2 ^ 63 + 1) v = true ∧
        share (2 ^ 63 + 1) v = 2 ^ 63).card = 1 := by
  have hsix : leadingZeros 6 = 61 := by decide
  have hlarge : leadingZeros (2 ^ 63 + 1) = 0 := by decide
  obtain ⟨-, -, hcount, -⟩ := uniform_fair 6 (by decide) (by decide)
  obtain ⟨-, -, hcount', -⟩ := uniform_fair (2 ^ 63 + 1) (by decide) (by decide)
  have h := hcount 5 (by decide)
  have h' := hcount' (2 ^ 63) (by decide)
  rw [hsix] at h
  rw [hlarge] at h'
  exact ⟨h, h'⟩

end Chooser

end PageFuzz
