import PageFuzz.Files.Path
import PageFuzz.Proofs.Text.Pieces

/-!
# Paths and their names

Slashes cut a path into names.  A path that is joined to a file name has the names of the path and
then that name, and nothing else about it changes for a walk.

* `names_append_slash`   the names on both sides of a slash, one after another;
* `names_join`           the names of a path that is joined to a file name;
* `names_descend`        the names of a path that goes down;
* `bytes_ofString_ascii` the bytes of an ASCII text, one for each character;
* `isFileName_ofString`  the texts that are names of files.
-/

namespace PageFuzz

/-! ## bytes of a text -/

theorem byteList_loop (b : ByteArray) (i : Nat) (r : List UInt8) :
    ByteArray.toList.loop b i r = r.reverse ++ b.data.toList.drop i := by
  induction hn : b.size - i generalizing i r with
  | zero =>
    have hi : ¬ i < b.size := by omega
    have hlen : b.data.toList.length ≤ i := by
      rw [Array.length_toList]
      exact Nat.le_of_not_lt hi
    rw [ByteArray.toList.loop, if_neg hi, List.drop_eq_nil_of_le hlen, List.append_nil]
  | succ n ih =>
    have hi : i < b.size := by omega
    have hlen : i < b.data.toList.length := by
      rw [Array.length_toList]
      exact hi
    have hget : b.get! i = b.data.toList[i] := by
      show b.data[i]! = _
      rw [getElem!_pos b.data i hi, Array.getElem_toList]
    rw [ByteArray.toList.loop, if_pos hi, ih (i + 1) _ (by omega), hget, List.reverse_cons,
      List.append_assoc, List.drop_eq_getElem_cons hlen]
    rfl

theorem byteList_eq (b : ByteArray) : b.toList = b.data.toList := byteList_loop b 0 []

namespace Path

theorem bytes_ofString (s : String) :
    (ofString s).bytes = s.toList.flatMap String.utf8EncodeChar := by
  show s.toByteArray.toList = _
  rw [byteList_eq, ← String.utf8Encode_toList]
  show ((s.toList.flatMap String.utf8EncodeChar).toByteArray).data.toList = _
  exact List.toList_data_toByteArray

theorem utf8_ascii {cs : List Char} (h : ∀ c ∈ cs, c.val ≤ 127) :
    cs.flatMap String.utf8EncodeChar = cs.map fun c => c.val.toUInt8 := by
  induction cs with
  | nil => rfl
  | cons c cs ih =>
    have hc : c.utf8Size = 1 := Char.utf8Size_eq_one_iff.mpr (h c List.mem_cons_self)
    rw [List.flatMap_cons, List.map_cons, ih fun d hd => h d (List.mem_cons_of_mem _ hd),
      String.utf8EncodeChar_eq_singleton hc]
    rfl

theorem bytes_ofString_ascii {s : String} (h : ∀ c ∈ s.toList, c.val ≤ 127) :
    (ofString s).bytes = s.toList.map fun c => c.val.toUInt8 := by
  rw [bytes_ofString, utf8_ascii h]

theorem ofString_injective {a b : String} (h : ofString a = ofString b) : a = b := by
  have hbytes : a.toByteArray.toList = b.toByteArray.toList := congrArg Path.bytes h
  rw [byteList_eq, byteList_eq] at hbytes
  refine String.toByteArray_inj.mp (ByteArray.ext (Array.toList_inj.mp hbytes))

/-! ## names -/

/-- what can be the name of a file -/
structure IsFileName (x : Name) : Prop where
  ne_nil : x ≠ []
  ne_dot : x ≠ [dot]
  ne_up : x ≠ [dot, dot]
  slash_not_mem : slash ∉ x
  zero_not_mem : (0 : UInt8) ∉ x

/-- An ASCII text without slashes and zeros, and not of points alone, is the name of a file. -/
theorem isFileName_ofString {s : String}
    (hchars : ∀ c ∈ s.toList, c.val.toNat ≤ 127 ∧ c.val.toNat ≠ 0 ∧ c.val.toNat ≠ 47)
    (hother : ∃ c ∈ s.toList, c ≠ '.') : IsFileName (ofString s).bytes := by
  have hbytes : (ofString s).bytes = s.toList.map fun c => c.val.toUInt8 :=
    bytes_ofString_ascii fun c hc => UInt32.le_iff_toNat_le.mpr (hchars c hc).1
  have hvalue : ∀ {c : Char}, c ∈ s.toList → c.val.toUInt8.toNat = c.val.toNat := by
    intro c hc
    have hascii := (hchars c hc).1
    rw [UInt32.toNat_toUInt8]
    omega
  have hbyte : ∀ b ∈ (ofString s).bytes, b.toNat ≠ 47 ∧ b.toNat ≠ 0 := by
    intro b hb
    rw [hbytes] at hb
    obtain ⟨c, hc, rfl⟩ := List.mem_map.mp hb
    rw [hvalue hc]
    exact ⟨(hchars c hc).2.2, (hchars c hc).2.1⟩
  obtain ⟨c, hc, hpoint⟩ := hother
  have hin : c.val.toUInt8 ∈ (ofString s).bytes := by
    rw [hbytes]
    exact List.mem_map_of_mem hc
  have hne : c.val.toUInt8 ≠ dot := by
    intro he
    refine hpoint (Char.ext (UInt32.toNat_inj.mp ?_))
    rw [← hvalue hc, he]
    rfl
  have hpoints : ∀ x : Name, (∀ b ∈ x, b = dot) → (ofString s).bytes ≠ x := fun x hx he =>
    hne (hx _ (he ▸ hin))
  exact {
    ne_nil := hpoints [] nofun
    ne_dot := hpoints [dot] (by simp)
    ne_up := hpoints [dot, dot] (by simp)
    slash_not_mem := fun hslash => (hbyte _ hslash).1 rfl
    zero_not_mem := fun hzero => (hbyte _ hzero).2 rfl }

theorem names_append_slash (a b : List UInt8) :
    (⟨a ++ slash :: b⟩ : Path).names = (⟨a⟩ : Path).names ++ (⟨b⟩ : Path).names := by
  unfold names
  rw [List.splitOnP_append_cons a b (by simp), List.filter_append]

theorem names_of_no_slash {x : Name} (hne : x ≠ []) (hslash : slash ∉ x) :
    (⟨x⟩ : Path).names = [x] := by
  unfold names
  have hsplit : x.splitOnP (· == slash) = [x] := by
    apply List.splitOnP_eq_singleton
    intro b hb
    have hne : b ≠ slash := fun e => hslash (e ▸ hb)
    simpa using hne
  rw [hsplit]
  simp [hne]

theorem names_of_isFileName {x : Name} (h : IsFileName x) : (⟨x⟩ : Path).names = [x] :=
  names_of_no_slash h.ne_nil h.slash_not_mem

section
variable {p : Path} {x : Name}

theorem isAbsolute_of_no_slash (hslash : slash ∉ x) : (⟨x⟩ : Path).isAbsolute = false := by
  cases x with
  | nil => rfl
  | cons b bs =>
    have hb : b ≠ slash := fun e => hslash (e ▸ List.mem_cons_self)
    simpa [isAbsolute] using hb

theorem isAbsolute_of_isFileName (h : IsFileName x) : (⟨x⟩ : Path).isAbsolute = false :=
  isAbsolute_of_no_slash h.slash_not_mem

/-- A path joined to a file name is the path up to a slash, and then the name. -/
theorem join_eq (hp : p.bytes ≠ []) (h : IsFileName x) :
    ∃ front, p.join ⟨x⟩ = ⟨front ++ slash :: x⟩ ∧
      (p.bytes = front ∨ p.bytes = front ++ [slash]) := by
  unfold join
  rw [isAbsolute_of_isFileName h, if_neg Bool.false_ne_true]
  by_cases hs : p.endsWithSlash = true
  · have hlast : p.bytes.getLast? = some slash := by simpa [endsWithSlash] using hs
    obtain ⟨front, hfront⟩ := List.getLast?_eq_some_iff.mp hlast
    refine ⟨front, ?_, .inr hfront⟩
    rw [hs, Bool.or_true, if_pos rfl, hfront, List.append_assoc]
    rfl
  · have hempty : p.bytes.isEmpty = false := by simpa using hp
    refine ⟨p.bytes, ?_, .inl rfl⟩
    rw [hempty, Bool.false_or, if_neg hs]

theorem names_join (hp : p.bytes ≠ []) (h : IsFileName x) :
    (p.join ⟨x⟩).names = p.names ++ [x] := by
  obtain ⟨front, hjoin, hbytes⟩ := join_eq hp h
  rw [hjoin, names_append_slash, names_of_isFileName h]
  rcases hbytes with hb | hb
  · rw [← hb]
  · obtain ⟨bytes⟩ := p
    subst hb
    have hnil : (⟨[]⟩ : Path).names = [] := rfl
    rw [names_append_slash, hnil, List.append_nil]

theorem isAbsolute_join (hp : p.bytes ≠ []) (h : IsFileName x) :
    (p.join ⟨x⟩).isAbsolute = p.isAbsolute := by
  unfold join
  rw [isAbsolute_of_isFileName h, if_neg Bool.false_ne_true]
  obtain ⟨_ | ⟨b, bs⟩⟩ := p
  · exact absurd rfl hp
  · split <;> rfl

theorem endsWithSlash_join (hp : p.bytes ≠ []) (h : IsFileName x) :
    (p.join ⟨x⟩).endsWithSlash = false := by
  obtain ⟨front, hjoin, -⟩ := join_eq hp h
  rw [hjoin, endsWithSlash, List.getLast?_append, List.getLast?_cons]
  show ((some (x.getLast?.getD slash)).or front.getLast? == some slash) = false
  rw [Option.some_or]
  have hx : x.getLast?.getD slash ∈ x := by
    rw [List.getLast?_eq_some_getLast h.ne_nil]
    exact List.getLast_mem h.ne_nil
  have hne : x.getLast?.getD slash ≠ slash := fun e => h.slash_not_mem (e ▸ hx)
  simpa using hne

theorem zero_not_mem_join (hp : p.bytes ≠ []) (h : IsFileName x) (hzero : (0 : UInt8) ∉ p.bytes) :
    (0 : UInt8) ∉ (p.join ⟨x⟩).bytes := by
  obtain ⟨front, hjoin, hbytes⟩ := join_eq hp h
  have hfront : (0 : UInt8) ∉ front := by
    rcases hbytes with hb | hb
    · rwa [← hb]
    · intro hmem
      exact hzero (hb ▸ List.mem_append_left _ hmem)
  rw [hjoin]
  intro hmem
  rcases List.mem_append.mp hmem with hm | hm
  · exact hfront hm
  · rcases List.mem_cons.mp hm with he | hm
    · exact absurd he (by decide)
    · exact h.zero_not_mem hm

theorem join_ne_nil (hp : p.bytes ≠ []) (h : IsFileName x) : (p.join ⟨x⟩).bytes ≠ [] := by
  obtain ⟨front, hjoin, -⟩ := join_eq hp h
  rw [hjoin]
  simp

end

/-! ## paths that go down -/

/-- a name that leads from a directory to what is in it -/
structure IsStep (n : Name) : Prop where
  ne_nil : n ≠ []
  ne_dot : n ≠ [dot]
  ne_up : n ≠ [dot, dot]
  slash_not_mem : slash ∉ n

theorem IsFileName.isStep {n : Name} (h : IsFileName n) : IsStep n :=
  ⟨h.ne_nil, h.ne_dot, h.ne_up, h.slash_not_mem⟩

theorem IsStep.isFileName {n : Name} (h : IsStep n) (hzero : (0 : UInt8) ∉ n) : IsFileName n :=
  ⟨h.ne_nil, h.ne_dot, h.ne_up, h.slash_not_mem, hzero⟩

/-- The names of a path are not empty and have no slash. -/
theorem of_mem_names {p : Path} {n : Name} (h : n ∈ p.names) : n ≠ [] ∧ slash ∉ n := by
  obtain ⟨hpiece, hne⟩ := List.mem_filter.mp h
  refine ⟨by simpa using hne, fun hslash => ?_⟩
  have hcut := Text.of_mem_piece hpiece hslash
  simp at hcut

theorem names_descend {p : Path} {ns : List Name} (hp : p.bytes ≠ [])
    (hns : ∀ n ∈ ns, IsFileName n) : (p.descend ns).bytes ≠ [] ∧
      (p.descend ns).isAbsolute = p.isAbsolute ∧ (p.descend ns).names = p.names ++ ns := by
  induction ns generalizing p with
  | nil => exact ⟨hp, rfl, (List.append_nil _).symm⟩
  | cons n ns ih =>
    have hn := hns n List.mem_cons_self
    obtain ⟨hne, habsolute, hnames⟩ :=
      ih (join_ne_nil hp hn) fun m hm => hns m (List.mem_cons_of_mem n hm)
    refine ⟨hne, habsolute.trans (isAbsolute_join hp hn), ?_⟩
    rw [names_join hp hn, List.append_assoc] at hnames
    exact hnames

theorem mem_join_of_left {p : Path} {n : Name} {c : UInt8} (hn : slash ∉ n) (hc : c ∈ p.bytes) :
    c ∈ (p.join ⟨n⟩).bytes := by
  unfold join
  split
  · next habsolute =>
    have hhead : n.head? = some slash := by simpa [isAbsolute] using habsolute
    exact absurd (List.mem_of_mem_head? hhead) hn
  · split
    · exact List.mem_append_left _ hc
    · exact List.mem_append_left _ hc

theorem mem_join_of_right (p : Path) {n : Name} {c : UInt8} (hc : c ∈ n) :
    c ∈ (p.join ⟨n⟩).bytes := by
  unfold join
  split
  · exact hc
  · split
    · exact List.mem_append_right _ hc
    · exact List.mem_append_right _ (List.mem_cons_of_mem _ hc)

/-- The bytes of the names that a path goes down along are bytes of the path. -/
theorem mem_descend {p : Path} {ns : List Name} {c : UInt8} (hns : ∀ n ∈ ns, slash ∉ n)
    (hc : c ∈ p.bytes ∨ ∃ n ∈ ns, c ∈ n) : c ∈ (p.descend ns).bytes := by
  induction ns generalizing p with
  | nil =>
    rcases hc with hc | ⟨n, hn, -⟩
    · exact hc
    · cases hn
  | cons n ns ih =>
    refine ih (p := p.join ⟨n⟩) (fun m hm => hns m (List.mem_cons_of_mem n hm)) ?_
    rcases hc with hc | ⟨m, hm, hc⟩
    · exact .inl (mem_join_of_left (hns n List.mem_cons_self) hc)
    · rcases List.mem_cons.mp hm with rfl | hm
      · exact .inl (mem_join_of_right p hc)
      · exact .inr ⟨m, hm, hc⟩

end Path

end PageFuzz
