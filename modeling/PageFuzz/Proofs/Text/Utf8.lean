import Mathlib
import PageFuzz.Proofs.Files.Names
import PageFuzz.Text.Utf8

/-!
# Texts read back from their bytes

The bytes of a text are undamaged, so reading them with damage allowed gives the text again.  The
reader is followed through the bytes of one character, first byte by first byte.

* `first_two`, `first_three`, `first_four`   what a first byte owes, and which byte may come next;
* `piecesFrom_encode`                        the bytes of one character are one piece;
* `lossy_toByteArray`                        the bytes of a text are that text.
-/

namespace PageFuzz.Text.Utf8

/-! ## bytes of one character -/

theorem piecesFrom_cons {b : Nat} (h : b < 256) (q : State) (bs : List UInt8) :
    piecesFrom q (UInt8.ofNat b :: bs) = (step q b).1 ++ piecesFrom (step q b).2 bs := by
  have hbyte : (UInt8.ofNat b).toNat = b := UInt8.toNat_ofNat_of_lt h
  rw [piecesFrom, hbyte]

/-- a byte that is allowed inside a character -/
theorem step_inside {owed least greatest value m : Nat} (hleast : least ≤ m + 128)
    (hgreatest : m + 128 ≤ greatest) :
    step (.inside owed least greatest value) (m + 128) =
      if owed ≤ 1 then ([some (Char.ofNat (64 * value + m))], .idle)
      else ([], .inside (owed - 1) 0x80 0xBF (64 * value + m)) := by
  have hallowed : (decide (least ≤ m + 128) && decide (m + 128 ≤ greatest)) = true := by
    simp [hleast, hgreatest]
  rw [step, if_pos hallowed, Nat.add_sub_cancel]

theorem first_two {k : Nat} (hlow : 2 ≤ k) (hhigh : k ≤ 31) :
    first (k + 192) = ([], .inside 1 0x80 0xBF k) := by
  interval_cases k <;> rfl

/-- A character of three bytes owes two, and its number is neither too small for them nor one of a
surrogate. -/
theorem first_three {k : Nat} (hk : k ≤ 15) :
    ∃ least greatest, first (k + 224) = ([], .inside 2 least greatest k) ∧
      ∀ m < 64, (k = 0 → 32 ≤ m) → (k = 13 → m ≤ 31) → least ≤ m + 128 ∧ m + 128 ≤ greatest := by
  interval_cases k <;> refine ⟨_, _, rfl, fun m hm hsmall hsurrogate => ?_⟩ <;> omega

/-- A character of four bytes owes three, and its number is neither too small for them nor beyond
the last one. -/
theorem first_four {k : Nat} (hk : k ≤ 4) :
    ∃ least greatest, first (k + 240) = ([], .inside 3 least greatest k) ∧
      ∀ m < 64, (k = 0 → 16 ≤ m) → (k = 4 → m ≤ 15) → least ≤ m + 128 ∧ m + 128 ≤ greatest := by
  interval_cases k <;> refine ⟨_, _, rfl, fun m hm hsmall hbeyond => ?_⟩ <;> omega

theorem piecesFrom_first {b owed least greatest value : Nat} (hb : b < 256)
    (h : first b = ([], .inside owed least greatest value)) (bs : List UInt8) :
    piecesFrom .idle (UInt8.ofNat b :: bs) = piecesFrom (.inside owed least greatest value) bs := by
  rw [piecesFrom_cons hb, step, h]
  rfl

/-- a byte inside a character, after which more are owed -/
theorem piecesFrom_next {owed least greatest value m : Nat} (hm : m < 64)
    (hallowed : least ≤ m + 128 ∧ m + 128 ≤ greatest) (bs : List UInt8) :
    piecesFrom (.inside (owed + 2) least greatest value) (UInt8.ofNat (m + 128) :: bs) =
      piecesFrom (.inside (owed + 1) 0x80 0xBF (64 * value + m)) bs := by
  have howed : ¬ owed + 2 ≤ 1 := by omega
  rw [piecesFrom_cons (by omega), step_inside hallowed.1 hallowed.2, if_neg howed]
  rfl

/-- the last byte of a character -/
theorem piecesFrom_last {least greatest value m : Nat} (hm : m < 64)
    (hallowed : least ≤ m + 128 ∧ m + 128 ≤ greatest) (bs : List UInt8) :
    piecesFrom (.inside 1 least greatest value) (UInt8.ofNat (m + 128) :: bs) =
      some (Char.ofNat (64 * value + m)) :: piecesFrom .idle bs := by
  rw [piecesFrom_cons (by omega), step_inside hallowed.1 hallowed.2, if_pos (Nat.le_refl 1)]
  rfl

/-- **The bytes of a character are read as that character.** -/
theorem piecesFrom_encode (c : Char) (bs : List UInt8) :
    piecesFrom .idle (String.utf8EncodeChar c ++ bs) = some c :: piecesFrom .idle bs := by
  obtain ⟨v, hv⟩ : ∃ v, v = c.val.toNat := ⟨_, rfl⟩
  have hchar : Char.ofNat v = c := by
    rw [hv]
    exact Char.ofNat_toNat c
  have hvalid : v < 0xD800 ∨ 0xDFFF < v ∧ v < 0x110000 := hv ▸ c.valid
  have hany : ∀ m < 64, 0x80 ≤ m + 128 ∧ m + 128 ≤ 0xBF := fun m hm => by omega
  have hlow : ∀ n, n % 64 < 64 := fun n => Nat.mod_lt n (by decide)
  unfold String.utf8EncodeChar
  rw [← hv]
  dsimp only
  split
  · next hone =>
    have hfirst : first v = ([some (Char.ofNat v)], .idle) := if_pos (by omega)
    rw [List.cons_append, piecesFrom_cons (by omega), step, hfirst, hchar]
    rfl
  · split
    · next hone htwo =>
      have hk : v / 64 % 32 = v / 64 := by omega
      have hfirst := first_two (k := v / 64) (by omega) (by omega)
      have hvalue : 64 * (v / 64) + v % 64 = v := by omega
      rw [hk, List.cons_append, List.cons_append, List.nil_append,
        piecesFrom_first (by omega) hfirst, piecesFrom_last (hlow v) (hany _ (hlow v)), hvalue,
        hchar]
    · split
      · next hone htwo hthree =>
        have hk : v / 4096 % 16 = v / 4096 := by omega
        obtain ⟨least, greatest, hfirst, hnext⟩ := first_three (k := v / 4096) (by omega)
        have hsecond := hnext (v / 64 % 64) (hlow _) (by omega) (by omega)
        have hvalue : 64 * (64 * (v / 4096) + v / 64 % 64) + v % 64 = v := by omega
        rw [hk, List.cons_append, List.cons_append, List.cons_append, List.nil_append,
          piecesFrom_first (by omega) hfirst, piecesFrom_next (hlow _) hsecond,
          piecesFrom_last (hlow v) (hany _ (hlow v)), hvalue, hchar]
      · next hone htwo hthree =>
        have hk : v / 262144 % 8 = v / 262144 := by omega
        obtain ⟨least, greatest, hfirst, hnext⟩ := first_four (k := v / 262144) (by omega)
        have hsecond := hnext (v / 4096 % 64) (hlow _) (by omega) (by omega)
        have hvalue :
            64 * (64 * (64 * (v / 262144) + v / 4096 % 64) + v / 64 % 64) + v % 64 = v := by
          omega
        rw [hk, List.cons_append, List.cons_append, List.cons_append, List.cons_append,
          List.nil_append, piecesFrom_first (by omega) hfirst, piecesFrom_next (hlow _) hsecond,
          piecesFrom_next (hlow _) (hany _ (hlow _)), piecesFrom_last (hlow v) (hany _ (hlow v)),
          hvalue, hchar]

/-! ## bytes of a text -/

theorem pieces_flatMap_encode (cs : List Char) :
    pieces (cs.flatMap String.utf8EncodeChar) = cs.map some := by
  unfold pieces
  induction cs with
  | nil => rfl
  | cons c cs ih => rw [List.flatMap_cons, piecesFrom_encode, ih, List.map_cons]

/-- **A text is read back from its bytes.** -/
theorem lossy_toByteArray (s : String) : lossy s.toByteArray.toList = s := by
  have hbytes : s.toByteArray.toList = s.toList.flatMap String.utf8EncodeChar :=
    Path.bytes_ofString s
  have hsame : (s.toList.map some).map (·.getD '\uFFFD') = s.toList := by simp
  rw [hbytes, lossy_eq, pieces_flatMap_encode, hsame, String.ofList_toList]

end PageFuzz.Text.Utf8
