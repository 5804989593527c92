import PageFuzz.Proofs.Files.Names

/-!
# Names with a number

Pages are kept in files that are numbered in decimal: some text, the number, and `.html`.

* `fileName?_join`, `extension?_of_fileName?`  the last name of a path, and what follows its dot;
* `isFileName_numbered`    a numbered name is the name of a file, if the text in front allows it;
* `numbered_injective`     different numbers have different names;
* `extension?_numbered`    every one of them ends in `html`.
-/

namespace PageFuzz

/-! ## numbers as texts -/

theorem toList_toString (n : Nat) : (toString n).toList = Nat.toDigits 10 n := Nat.toList_repr

theorem toString_injective {m n : Nat} (h : toString m = toString n) : m = n := by
  have hdigits := congrArg String.toList h
  rw [toList_toString, toList_toString] at hdigits
  rw [← @Nat.ofDigitChars_toDigits 10 m (by decide) (by decide), hdigits,
    Nat.ofDigitChars_toDigits (by decide) (by decide)]

theorem val_of_isDigit {c : Char} (h : c.isDigit = true) :
    c.val.toNat ≤ 127 ∧ c.val.toNat ≠ 0 ∧ c.val.toNat ≠ 47 := by
  rw [Char.isDigit, Bool.and_eq_true, decide_eq_true_eq, decide_eq_true_eq] at h
  have hlow : 48 ≤ c.val.toNat := UInt32.le_iff_toNat_le.mp h.1
  have hhigh : c.val.toNat ≤ 57 := UInt32.le_iff_toNat_le.mp h.2
  omega

namespace Path

/-! ## the last name -/

section
variable {p : Path} {x : Name}

theorem fileName?_join (hp : p.bytes ≠ []) (h : IsFileName x) :
    (p.join ⟨x⟩).fileName? = some x := by
  have hplain : (x != [dot]) = true := by simpa using h.ne_dot
  have hlast : (p.join ⟨x⟩).parts.getLast? = some x := by
    rw [parts, names_join hp h]
    cases p.names with
    | nil =>
      have hnot : (x == [dot]) = false := by simpa using h.ne_dot
      simp [hnot]
    | cons n ns =>
      rw [List.cons_append]
      dsimp only
      have hkeep : [x].filter (· != [dot]) = [x] := List.filter_cons_of_pos hplain
      rw [List.filter_append, hkeep]
      split
      · exact List.getLast?_concat
      · rw [← List.cons_append, List.getLast?_concat]
  have hup : (x != [dot, dot]) = true := by simpa using h.ne_up
  rw [fileName?, hlast, Option.filter_some, hplain, hup]
  rfl

/-- What follows the last dot of the last name. -/
theorem extension?_of_fileName? {front ending : Name}
    (h : p.fileName? = some (front ++ dot :: ending)) (hfront : front ≠ []) (hdot : dot ∉ ending) : p.extension? = some ending := by
  have hafter : (front ++ dot :: ending).reverse.takeWhile (· != dot) = ending.reverse := by
    have hall : ∀ b ∈ ending.reverse, (b != dot) = true := by
      intro b hb
      have hne : b ≠ dot := fun he => hdot (he ▸ List.mem_reverse.mp hb)
      simpa using hne
    rw [List.reverse_append, List.reverse_cons, List.append_assoc,
      List.takeWhile_append_of_pos hall, List.singleton_append, List.takeWhile_cons_of_neg (by simp), List.append_nil]
  have hlength : ¬ (front ++ dot :: ending).length ≤ ending.length + 1 := by
    have hpos := List.length_pos_iff.mpr hfront
    rw [List.length_append, List.length_cons]
    omega
  rw [extension?, h]
  show (if _ then none else some _) = some ending
  rw [hafter, List.reverse_reverse, if_neg hlength]

end

/-! ## numbered names -/

/-- the bytes of a text, a number and `.html` -/
def numbered (text : String) (n : Nat) : Name := (ofString (text ++ toString n ++ ".html")).bytes

section
variable {text : String} {m n : Nat}

theorem isFileName_numbered
    (h : ∀ c ∈ text.toList, c.val.toNat ≤ 127 ∧ c.val.toNat ≠ 0 ∧ c.val.toNat ≠ 47) (n : Nat) :
    IsFileName (numbered text n) := by
  have hsplit : (text ++ toString n ++ ".html").toList =
      text.toList ++ Nat.toDigits 10 n ++ ['.', 'h', 't', 'm', 'l'] := by
    rw [String.toList_append, String.toList_append, toList_toString]
    rfl
  refine isFileName_ofString (fun c hc => ?_) ⟨'h', ?_, by decide⟩
  · rw [hsplit, List.mem_append, List.mem_append] at hc
    rcases hc with (hc | hc) | hc
    · exact h c hc
    · exact val_of_isDigit (Nat.isDigit_of_mem_toDigits (Nat.succ_pos 9) (Nat.le_refl 10) hc)
    · simp only [List.mem_cons, List.not_mem_nil, or_false] at hc
      rcases hc with rfl | rfl | rfl | rfl | rfl <;> decide
  · rw [hsplit]
    exact List.mem_append_right _ (by decide)

theorem numbered_injective (h : numbered text m = numbered text n) : m = n := by
  have htext : text ++ toString m ++ ".html" = text ++ toString n ++ ".html" :=
    ofString_injective (congrArg Path.mk h)
  exact toString_injective ((String.append_right_inj text).mp ((String.append_left_inj _).mp htext))

theorem bytes_numbered (text : String) (n : Nat) :
    numbered text n = (ofString (text ++ toString n)).bytes ++ dot :: (ofString "html").bytes := by
  have hend : (ofString ".html").bytes = dot :: (ofString "html").bytes := by
    rw [bytes_ofString, bytes_ofString]
    rfl
  rw [numbered, bytes_ofString, String.toList_append, List.flatMap_append, ← bytes_ofString,
    ← bytes_ofString, hend]

theorem extension?_numbered {p : Path} (hp : p.bytes ≠ []) (h : IsFileName (numbered text n)) :
    (p.join ⟨numbered text n⟩).extension? = some (ofString "html").bytes := by
  have hname := fileName?_join hp h
  rw [bytes_numbered] at hname ⊢
  refine extension?_of_fileName? hname (fun hnil => ?_) ?_
  · -- a number has a digit
    have hnone : (ofString "").bytes = [] := by
      rw [bytes_ofString]
      rfl
    have hempty : text ++ toString n = "" :=
      ofString_injective (congrArg Path.mk (hnil.trans hnone.symm))
    have hdigits := congrArg String.toList hempty
    rw [String.toList_append, toList_toString] at hdigits
    exact Nat.toDigits_ne_nil (List.append_eq_nil_iff.mp hdigits).2
  · rw [bytes_ofString]
    decide

end

end Path

end PageFuzz
