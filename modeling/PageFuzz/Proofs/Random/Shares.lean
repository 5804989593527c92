import Mathlib
import PageFuzz.Random.Uniform

/-!
# Every number has the same share of the words

A word `v` stands for `v * n / 2 ^ 64`, and it is refused if the product leaves a remainder above
`zone n`.  The accepted words of a number `k` are those whose product lies in a window that begins
at `k * 2 ^ 64` and is `n * 2 ^ leadingZeros n` wide, and such a window holds the same count of
multiples of `n` wherever it begins.

* `zone_eq_word`       the zone, as it is computed with words of 64 bits that wrap;
* `accepts_share_iff`  the accepted words of a number, as a window;
* `card_share`         how many words are accepted for a number;
* `card_accepts`       how many words are accepted at all;
* `Picks`              the loop that draws words until one is accepted;
* `Picks.below_eq`     `below` is that loop, as far as its patience goes.
-/

namespace PageFuzz.Random

/-! ## the zone -/

/-- the zeros above the highest bit of a number, in a word of 64 bits -/
def leadingZeros (n : Nat) : Nat := (BitVec.ofNat 64 n).clz.toNat

section
variable {n : Nat}

/-- where the highest bit of a number stands -/
theorem leadingZeros_bounds (hpos : 0 < n) (hlt : n < UInt64.size) :
    leadingZeros n ≤ 63 ∧ 2 ^ (63 - leadingZeros n) ≤ n ∧ n < 2 ^ (64 - leadingZeros n) := by
  have hval : (BitVec.ofNat 64 n).toNat = n := by
    rw [BitVec.toNat_ofNat, Nat.mod_eq_of_lt hlt]
  have hne : BitVec.ofNat 64 n ≠ 0#64 := by
    intro h
    rw [h] at hval
    exact absurd hval.symm (Nat.pos_iff_ne_zero.mp hpos)
  have hzeros : leadingZeros n < 64 := BitVec.clz_lt_iff_ne_zero.mpr hne
  have hlow := BitVec.two_pow_sub_clz_le_toNat_of_ne_zero (by decide) hne
  have hhigh := BitVec.toNat_lt_two_pow_sub_clz (x := BitVec.ofNat 64 n)
  rw [hval] at hlow hhigh
  exact ⟨Nat.le_of_lt_succ hzeros, hlow, hhigh⟩

theorem log2_eq_sub_leadingZeros (hpos : 0 < n) (hlt : n < UInt64.size) :
    n.log2 = 63 - leadingZeros n := by
  obtain ⟨hle, hlow, hhigh⟩ := leadingZeros_bounds hpos hlt
  have hnext : 64 - leadingZeros n = 63 - leadingZeros n + 1 := by omega
  rw [hnext] at hhigh
  exact (Nat.log2_eq_iff hpos.ne').mpr ⟨hlow, hhigh⟩

/-- Shifted up by its leading zeros, a number fills at least half of a word and never all of it. -/
theorem shifted_bounds (hpos : 0 < n) (hlt : n < UInt64.size) :
    2 ^ 63 ≤ n * 2 ^ leadingZeros n ∧ n * 2 ^ leadingZeros n < UInt64.size := by
  obtain ⟨hle, hlow, hhigh⟩ := leadingZeros_bounds hpos hlt
  constructor
  · calc 2 ^ 63 = 2 ^ (63 - leadingZeros n) * 2 ^ leadingZeros n := by
          rw [← pow_add, Nat.sub_add_cancel hle]
      _ ≤ n * 2 ^ leadingZeros n := Nat.mul_le_mul_right _ hlow
  · calc n * 2 ^ leadingZeros n < 2 ^ (64 - leadingZeros n) * 2 ^ leadingZeros n :=
          Nat.mul_lt_mul_of_pos_right hhigh (Nat.two_pow_pos _)
      _ = UInt64.size := by
          rw [← pow_add, Nat.sub_add_cancel (Nat.le_succ_of_le hle)]
          rfl

theorem zone_add_one (hpos : 0 < n) (hlt : n < UInt64.size) :
    zone n + 1 = n * 2 ^ leadingZeros n := by
  have hzeros : 63 - n.log2 = leadingZeros n := by
    have hle := (leadingZeros_bounds hpos hlt).1
    rw [log2_eq_sub_leadingZeros hpos hlt]
    omega
  have hshift : n <<< (63 - n.log2) = n * 2 ^ leadingZeros n := by
    rw [hzeros, Nat.shiftLeft_eq]
  have hlow := (shifted_bounds hpos hlt).1
  rw [zone, hshift]
  omega

/-- The zone as a machine computes it: the shift drops what leaves the word, and the subtraction
wraps.  Neither happens. -/
theorem zone_eq_word (hpos : 0 < n) (hlt : n < UInt64.size) :
    zone n = (BitVec.ofNat 64 n <<< (BitVec.ofNat 64 n).clz - 1#64).toNat := by
  obtain ⟨hlow, hhigh⟩ := shifted_bounds hpos hlt
  have hzone := zone_add_one hpos hlt
  have hshift : (BitVec.ofNat 64 n <<< (BitVec.ofNat 64 n).clz).toNat =
      n * 2 ^ leadingZeros n := by
    rw [BitVec.shiftLeft_eq', BitVec.toNat_shiftLeft, BitVec.toNat_ofNat, Nat.mod_eq_of_lt hlt,
      Nat.shiftLeft_eq]
    exact Nat.mod_eq_of_lt hhigh
  have hone : 1#64 ≤ BitVec.ofNat 64 n <<< (BitVec.ofNat 64 n).clz := by
    rw [BitVec.le_def, hshift]
    exact le_trans (by decide) hlow
  rw [BitVec.toNat_sub_of_le hone, hshift, ← hzone]
  rfl

end

/-! ## the accepted words -/

section
variable {n k : Nat}

/-- The accepted words of a number are those whose product lies in its window. -/
theorem accepts_share_iff (hpos : 0 < n) (hlt : n < UInt64.size) (v : UInt64) :
    accepts n v = true ∧ share n v = k ↔
      k * UInt64.size ≤ v.toNat * n ∧ v.toNat * n < k * UInt64.size + n * 2 ^ leadingZeros n := by
  have hwidth := (shifted_bounds hpos hlt).2
  have hzone := zone_add_one hpos hlt
  have hsplit := Nat.div_add_mod (v.toNat * n) UInt64.size
  rw [accepts, decide_eq_true_eq, share]
  constructor
  · rintro ⟨hrest, rfl⟩
    rw [Nat.mul_comm] at hsplit
    omega
  · rintro ⟨hlow, hhigh⟩
    have hquotient : v.toNat * n / UInt64.size = k := by
      rw [Nat.div_eq_iff (by decide)]
      omega
    rw [hquotient, Nat.mul_comm] at hsplit
    exact ⟨by omega, hquotient⟩

/-- The first word whose product is not below `a`, and with it all the words of a window. -/
theorem window_iff (hpos : 0 < n) (a c v : Nat) :
    a ≤ v * n ∧ v * n < a + n * c ↔ v ∈ Finset.Ico (a ⌈/⌉ n) (a ⌈/⌉ n + c) := by
  have hreach : ∀ u, a ≤ u * n ↔ a ⌈/⌉ n ≤ u := by
    intro u
    rw [ceilDiv_le_iff_le_mul hpos, Nat.mul_comm]
  have hhigh : v * n < a + n * c ↔ v < a ⌈/⌉ n + c := by
    by_cases hle : c ≤ v
    · obtain ⟨u, rfl⟩ := Nat.exists_eq_add_of_le' hle
      rw [Nat.add_mul, Nat.mul_comm n c, Nat.add_lt_add_iff_right, Nat.add_lt_add_iff_right,
        ← not_le, hreach, not_le]
    · have hless : v * n < n * c := by
        rw [Nat.mul_comm]
        exact Nat.mul_lt_mul_of_pos_left (Nat.lt_of_not_le hle) hpos
      exact ⟨fun _ => by omega, fun _ => by omega⟩
  rw [hreach, hhigh, Finset.mem_Ico]

/-- **Each number below the bound has the same count of words**, a power of two. -/
theorem card_share (hpos : 0 < n) (hlt : n < UInt64.size) (hk : k < n) :
    (Finset.univ.filter fun v : UInt64 => accepts n v = true ∧ share n v = k).card =
      2 ^ leadingZeros n := by
  have hwidth := (shifted_bounds hpos hlt).2
  let first := k * UInt64.size ⌈/⌉ n
  -- a window ends below `n * 2 ^ 64`, and so a number that it holds is a word
  have hword : ∀ v ∈ Finset.Ico first (first + 2 ^ leadingZeros n), v < UInt64.size := by
    intro v hv
    obtain ⟨-, hhigh⟩ := (window_iff hpos (k * UInt64.size) _ v).mpr hv
    have hend : v * n < UInt64.size * n := by
      calc v * n < k * UInt64.size + n * 2 ^ leadingZeros n := hhigh
        _ < k * UInt64.size + UInt64.size := Nat.add_lt_add_left hwidth _
        _ = (k + 1) * UInt64.size := (Nat.succ_mul k UInt64.size).symm
        _ ≤ n * UInt64.size := Nat.mul_le_mul_right _ hk
        _ = UInt64.size * n := Nat.mul_comm _ _
    exact Nat.lt_of_mul_lt_mul_right hend
  have himage : (Finset.univ.filter fun v : UInt64 => accepts n v = true ∧ share n v = k).image
      UInt64.toNat = Finset.Ico first (first + 2 ^ leadingZeros n) := by
    ext v
    simp only [Finset.mem_image, Finset.mem_filter, Finset.mem_univ, true_and,
      accepts_share_iff hpos hlt, window_iff hpos]
    constructor
    · rintro ⟨w, hw, rfl⟩
      exact hw
    · intro hv
      have hval : (UInt64.ofNat v).toNat = v := by
        rw [UInt64.toNat_ofNat', Nat.mod_eq_of_lt (hword v hv)]
      exact ⟨UInt64.ofNat v, by rw [hval]; exact hv, hval⟩
  rw [← Finset.card_image_of_injective _ fun _ _ => UInt64.toNat_inj.mp, himage, Nat.card_Ico,
    Nat.add_sub_cancel_left]

/-- All the accepted words: those of each number below the bound. -/
theorem card_accepts (hpos : 0 < n) (hlt : n < UInt64.size) :
    (Finset.univ.filter fun v : UInt64 => accepts n v = true).card = n * 2 ^ leadingZeros n := by
  have hmaps : ∀ v ∈ Finset.univ.filter fun v : UInt64 => accepts n v = true,
      share n v ∈ Finset.range n := fun v _ => Finset.mem_range.mpr (share_lt hpos v)
  rw [Finset.card_eq_sum_card_fiberwise hmaps,
    Finset.sum_congr rfl fun k hk => ?_, Finset.sum_const, Finset.card_range, smul_eq_mul]
  rw [Finset.filter_filter]
  exact card_share hpos hlt (Finset.mem_range.mp hk)

end

/-! ## drawing until a word is accepted -/

/-- The loop that picks a number below `n`, for as long as it takes: `refused` words are drawn in
vain, and the next one is accepted. -/
inductive Picks (n : Nat) : RandomStream → (refused : Nat) → Nat → RandomStream → Prop
  | accepted {s : RandomStream} (h : accepts n s.word64.1 = true) :
    Picks n s 0 (share n s.word64.1) s.word64.2
  | refused {s s' : RandomStream} {r k : Nat} (h : accepts n s.word64.1 = false)
    (later : Picks n s.word64.2 r k s') : Picks n s (r + 1) k s'

namespace Picks

variable {n r k : Nat} {s s' : RandomStream}

theorem lt (hpos : 0 < n) (h : Picks n s r k s') : k < n := by
  induction h with
  | accepted => exact share_lt hpos _
  | refused _ _ ih => exact ih

theorem belowWithin_eq (h : Picks n s r k s') {fuel : Nat} (hfuel : r ≤ fuel) :
    s.belowWithin n fuel = (k, s') := by
  induction h generalizing fuel with
  | accepted haccepted =>
    cases fuel with
    | zero => rfl
    | succ fuel => simp only [RandomStream.belowWithin, haccepted, if_true]
  | refused hrefused _ ih =>
    obtain ⟨fuel, rfl⟩ : ∃ f, fuel = f + 1 := ⟨fuel - 1, by omega⟩
    simp only [RandomStream.belowWithin, hrefused, Bool.false_eq_true, if_false]
    exact ih (by omega)

theorem below_eq (h : Picks n s r k s') (hr : r ≤ patience) : s.below n = (k, s') :=
  h.belowWithin_eq hr

end Picks

end PageFuzz.Random
