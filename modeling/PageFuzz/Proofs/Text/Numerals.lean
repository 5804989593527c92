import Mathlib
import PageFuzz.Text.Numeral

/-!
# Numerals and their numbers

A number has many numerals: its digits, any zeros before them, and a plus sign or none before these.
Reading accepts exactly the numerals, each for its number.

* `Numeral`                the texts that stand for a number;
* `exists_zeros`           digits are zeros and then the digits of their value;
* `readNat_eq_some_iff`    the texts that are read, and as what.
-/

namespace PageFuzz

namespace Text

/-- The text stands for the number: its digits, perhaps with zeros before them, and perhaps with a
plus sign before these. -/
def Numeral (text : String) (n : Nat) : Prop :=
  ∃ sign zeros, (sign = [] ∨ sign = ['+']) ∧
    text.toList = sign ++ (List.replicate zeros '0' ++ Nat.toDigits 10 n)

theorem digitsValue_eq (ds : List Char) : digitsValue ds = Nat.ofDigitChars 10 ds 0 :=
  Nat.ofDigitChars_eq_foldl.symm

/-- A digit is the numeral of its value. -/
theorem toDigits_digit {c : Char} (h : c.isDigit = true) :
    c.toNat - '0'.toNat < 10 ∧ Nat.toDigits 10 (c.toNat - '0'.toNat) = [c] := by
  rw [Char.isDigit, Bool.and_eq_true, decide_eq_true_eq, decide_eq_true_eq] at h
  have hlow : 48 ≤ c.toNat := UInt32.le_iff_toNat_le.mp h.1
  have hhigh : c.toNat ≤ 57 := UInt32.le_iff_toNat_le.mp h.2
  rw [← Char.ofNat_toNat c]
  generalize c.toNat = n at hlow hhigh
  interval_cases n <;> decide

theorem digitsValue_zeros_append (zeros n : Nat) :
    digitsValue (List.replicate zeros '0' ++ Nat.toDigits 10 n) = n := by
  rw [digitsValue_eq, Nat.ofDigitChars_append, Nat.ofDigitChars_replicate_zero, Nat.mul_zero,
    Nat.ofDigitChars_ten_toDigits]

/-- Digits are zeros, or zeros and the digits of their value. -/
theorem exists_zeros {ds : List Char} (h : ∀ c ∈ ds, c.isDigit = true) : ∃ zeros,
    (digitsValue ds = 0 ∧ ds = List.replicate zeros '0') ∨
      (0 < digitsValue ds ∧ ds = List.replicate zeros '0' ++ Nat.toDigits 10 (digitsValue ds)) := by
  induction ds using List.reverseRecOn with
  | nil => exact ⟨0, .inl ⟨rfl, rfl⟩⟩
  | append_singleton ds d ih =>
    obtain ⟨hless, hdigit⟩ := toDigits_digit (h d List.mem_concat_self)
    obtain ⟨zeros, ⟨hzero, hds⟩ | ⟨hpos, hds⟩⟩ := ih fun c hc => h c (List.mem_append_left _ hc)
    · rw [digitsValue_append_singleton, hzero, Nat.mul_zero, Nat.zero_add]
      cases hd : d.toNat - '0'.toNat with
      | zero =>
        refine ⟨zeros + 1, .inl ⟨rfl, ?_⟩⟩
        rw [hd, Nat.toDigits_zero] at hdigit
        rw [List.replicate_succ', ← hds, hdigit]
      | succ k =>
        rw [hd] at hdigit
        refine ⟨zeros, .inr ⟨Nat.succ_pos k, ?_⟩⟩
        rw [← hds, hdigit]
    · refine ⟨zeros, .inr ⟨?_, ?_⟩⟩
      · rw [digitsValue_append_singleton]
        omega
      · rw [digitsValue_append_singleton, ← Nat.toDigits_append_toDigits (by decide) hpos hless,
          ← List.append_assoc, ← hds, hdigit]

theorem isDigits_iff_zeros {ds : List Char} : isDigits ds = true ↔
    ∃ zeros, ds = List.replicate zeros '0' ++ Nat.toDigits 10 (digitsValue ds) := by
  rw [isDigits, Bool.and_eq_true, Bool.not_eq_true', List.isEmpty_eq_false_iff, List.all_eq_true]
  constructor
  · rintro ⟨hne, hall⟩
    obtain ⟨zeros, ⟨hzero, hds⟩ | ⟨-, hds⟩⟩ := exists_zeros hall
    · cases zeros with
      | zero => exact absurd hds hne
      | succ zeros =>
        refine ⟨zeros, ?_⟩
        rw [hzero, Nat.toDigits_zero, ← List.replicate_succ']
        exact hds
    · exact ⟨zeros, hds⟩
  · rintro ⟨zeros, hds⟩
    rw [hds]
    refine ⟨List.append_ne_nil_of_right_ne_nil _ Nat.toDigits_ne_nil, fun c hc => ?_⟩
    rcases List.mem_append.mp hc with hzero | hdigit
    · rw [List.eq_of_mem_replicate hzero]
      rfl
    · exact Nat.isDigit_of_mem_toDigits (by decide) (by decide) hdigit

theorem exists_sign (cs : List Char) :
    ∃ sign, (sign = [] ∨ sign = ['+']) ∧ cs = sign ++ unsigned cs := by
  unfold unsigned
  split
  · exact ⟨['+'], .inr rfl, rfl⟩
  · exact ⟨[], .inl rfl, rfl⟩

theorem unsigned_append {sign ds : List Char} (hsign : sign = [] ∨ sign = ['+'])
    (hds : isDigits ds = true) : unsigned (sign ++ ds) = ds := by
  rcases hsign with rfl | rfl
  · rw [List.nil_append, unsigned]
    rintro _ rfl
    cases hds
  · rfl

/-- What is read as a number is a numeral of it, and every numeral is read. -/
theorem readNat_eq_some_iff {text : String} {n : Nat} :
    readNat text = some n ↔ Numeral text n := by
  constructor
  · intro h
    obtain ⟨sign, hsign, htext⟩ := exists_sign text.toList
    simp only [readNat, Option.ite_none_right_eq_some, Option.some.injEq] at h
    obtain ⟨hdigits, rfl⟩ := h
    obtain ⟨zeros, hzeros⟩ := isDigits_iff_zeros.mp hdigits
    exact ⟨sign, zeros, hsign, by rw [← hzeros]; exact htext⟩
  · rintro ⟨sign, zeros, hsign, htext⟩
    have hvalue := digitsValue_zeros_append zeros n
    have hdigits : isDigits (List.replicate zeros '0' ++ Nat.toDigits 10 n) = true :=
      isDigits_iff_zeros.mpr ⟨zeros, by rw [hvalue]⟩
    simp only [readNat, htext, unsigned_append hsign hdigits, hdigits, hvalue, if_true]

end Text

end PageFuzz
