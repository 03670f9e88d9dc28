import ContentFilter.Text.Bytes
import Mathlib.Data.List.Basic
import Mathlib.Data.List.TakeWhile
import Mathlib.Tactic.SplitIfs

/-!
# Searching the bytes of a text

A byte below 128 is a character by itself, and no other character has such a byte in its encoding
(`eq_of_mem_utf8EncodeChar`). So a search for ASCII characters in the bytes of a text stops where
the search in the text would: behind the bytes of what is passed over (`findByte_append`), which is
a position between two characters. The text between two such positions is there to be had
(`slice?_append`).

For the same reason a change of case can be made on the bytes (`bytes_foldCase`). Where characters
begin is told from the bytes too, since the first byte of a character differs from its other ones
(`isBoundary_bytes_iff`).
-/

set_option autoImplicit false

namespace ContentFilter.Text

/-! ## Bytes of ASCII characters -/

section

variable {c d : Char}

/-- An ASCII character is one byte. -/
theorem utf8EncodeChar_of_ascii (hc : c.toNat < 128) : String.utf8EncodeChar c = [c.toUInt8] := by
  have hle : c.val.toNat ≤ 127 := Nat.le_of_lt_succ hc
  simp only [String.utf8EncodeChar, hle, if_true]
  rfl

/-- The bytes of any other character are at least 128. -/
theorem le_of_mem_utf8EncodeChar (hc : 128 ≤ c.toNat) {b : UInt8}
    (h : b ∈ String.utf8EncodeChar c) : 128 ≤ b.toNat := by
  have hlong : ¬ c.val.toNat ≤ 127 := Nat.not_le_of_lt hc
  -- The first byte has at least its two highest bits set, the others have the highest one.
  have hbyte : ∀ n, 128 ≤ n → n < 256 → b = UInt8.ofNat n → 128 ≤ b.toNat := by
    rintro n hle hlt rfl
    rwa [UInt8.toNat_ofNat_of_lt' hlt]
  simp only [String.utf8EncodeChar, hlong, if_false] at h
  split_ifs at h
  all_goals simp only [List.mem_cons, List.not_mem_nil, or_false] at h
  · rcases h with h | h
    all_goals exact hbyte _ (by omega) (by omega) h
  · rcases h with h | h | h
    all_goals exact hbyte _ (by omega) (by omega) h
  · rcases h with h | h | h | h
    all_goals exact hbyte _ (by omega) (by omega) h

theorem toNat_toUInt8_of_ascii (hd : d.toNat < 128) : d.toUInt8.toNat = d.toNat :=
  Nat.mod_eq_of_lt (Nat.lt_trans hd (by decide))

/-- The byte of an ASCII character occurs in no other character. -/
theorem eq_of_mem_utf8EncodeChar (hd : d.toNat < 128) (h : d.toUInt8 ∈ String.utf8EncodeChar c) :
    c = d := by
  have hbyte := toNat_toUInt8_of_ascii hd
  by_cases hc : c.toNat < 128
  · rw [utf8EncodeChar_of_ascii hc, List.mem_singleton] at h
    rw [h, toNat_toUInt8_of_ascii hc] at hbyte
    exact Char.toNat_inj.mp hbyte
  · have hle := le_of_mem_utf8EncodeChar (Nat.le_of_not_lt hc) h
    omega

/-- Whether a byte of a character is that of an ASCII character tells whether the two are the same.
-/
theorem eq_toUInt8_iff_of_mem (hd : d.toNat < 128) {b : UInt8} (h : b ∈ String.utf8EncodeChar c) :
    b = d.toUInt8 ↔ c = d := by
  constructor
  · rintro rfl
    exact eq_of_mem_utf8EncodeChar hd h
  · rintro rfl
    rwa [utf8EncodeChar_of_ascii hd, List.mem_singleton] at h

/-- What holds of the first 128 characters holds of those of ASCII. -/
theorem forall_of_ascii {P : Char → Prop} (h : ∀ n < 128, P (Char.ofNat n)) (hc : c.toNat < 128) :
    P c :=
  c.ofNat_toNat ▸ h c.toNat hc

end

/-! ## Bytes of any characters -/

/-- The bytes of a character in a text. The first one tells that a character begins there. -/
theorem exists_getElem?_bytes (head : Text) {c : Char} (rest : Text) {j : Nat}
    (hj : j < c.utf8Size) :
    ∃ b, (bytes (head ++ c :: rest))[byteLength head + j]? = some b ∧
      b ∈ String.utf8EncodeChar c ∧ (b.IsUTF8FirstByte ↔ j = 0) := by
  have hlt : j < (String.utf8EncodeChar c).length := by rwa [String.length_utf8EncodeChar]
  refine ⟨(String.utf8EncodeChar c)[j], ?_, List.getElem_mem hlt,
    UInt8.isUTF8FirstByte_getElem_utf8EncodeChar⟩
  rw [bytes_append, ← length_bytes, List.getElem?_append_right (Nat.le_add_right _ _),
    Nat.add_sub_cancel_left, bytes_cons, List.getElem?_append_left hlt,
    List.getElem?_eq_getElem hlt]

/-- Every byte belongs to a character. -/
theorem exists_char_of_lt {t : Text} {i : Nat} (h : i < byteLength t) :
    ∃ head c rest j, t = head ++ c :: rest ∧ i = byteLength head + j ∧ j < c.utf8Size := by
  induction t generalizing i with
  | nil => exact absurd h (Nat.not_lt_zero i)
  | cons c t ih =>
    by_cases hlt : i < c.utf8Size
    · exact ⟨[], c, t, i, rfl, (Nat.zero_add i).symm, hlt⟩
    · rw [byteLength_cons] at h
      obtain ⟨head, d, rest, j, rfl, hi, hj⟩ := @ih (i - c.utf8Size) (by omega)
      exact ⟨c :: head, d, rest, j, rfl, by rw [byteLength_cons]; omega, hj⟩

/-- Which ASCII character comes before a position is told from the last byte before it. -/
theorem exists_getElem?_bytes_pred {c : Char} (hc : c.toNat < 128) {head : Text} (hne : head ≠ [])
    (rest : Text) :
    ∃ b, (bytes (head ++ rest))[byteLength head - 1]? = some b ∧
      (b = c.toUInt8 ↔ head.getLast? = some c) := by
  obtain ⟨init, d, rfl⟩ : ∃ init d, head = init ++ [d] :=
    ⟨head.dropLast, head.getLast hne, (List.dropLast_append_getLast hne).symm⟩
  have hlast : byteLength (init ++ [d]) - 1 = byteLength init + (d.utf8Size - 1) := by
    have hpos := d.utf8Size_pos
    rw [byteLength_append, byteLength_cons, byteLength_nil]
    omega
  obtain ⟨b, hb, hmem, -⟩ := exists_getElem?_bytes init rest (Nat.sub_one_lt_of_lt d.utf8Size_pos)
  refine ⟨b, by rw [hlast, ← List.append_cons, hb], ?_⟩
  rw [List.getLast?_concat, Option.some.injEq, eq_toUInt8_iff_of_mem hc hmem]

/-- Which ASCII character follows a position is told from the next byte. -/
theorem getElem?_bytes_append {c : Char} (hc : c.toNat < 128) (before rest : Text) :
    (bytes (before ++ rest))[byteLength before]? = some c.toUInt8 ↔ rest.head? = some c := by
  cases rest with
  | nil => simp
  | cons d rest =>
    obtain ⟨b, hb, hmem, -⟩ := exists_getElem?_bytes before rest d.utf8Size_pos
    rw [Nat.add_zero] at hb
    rw [hb, Option.some.injEq, List.head?_cons, Option.some.injEq, eq_toUInt8_iff_of_mem hc hmem]

/-! ## Searching -/

/-- Some characters are all of ASCII. -/
def Ascii (cs : List Char) : Prop := ∀ c ∈ cs, c.toNat < 128

-- Only the members of a list are looked at, and not all characters that there are.
instance (cs : List Char) : Decidable (Ascii cs) :=
  List.decidableBAll (fun c : Char => c.toNat < 128) cs

instance (t : Text) (cs : List Char) : Decidable (t.Disjoint cs) :=
  List.decidableBAll (fun c : Char => c ∉ cs) t

variable {cs : List Char}

theorem isByteOf_toUInt8 {c : Char} (hc : c ∈ cs) : isByteOf cs c.toUInt8 = true :=
  List.any_eq_true.mpr ⟨c, hc, beq_self_eq_true _⟩

/-- A character that is none of some ASCII characters has none of their bytes. -/
theorem isByteOf_eq_false (hcs : Ascii cs) {c : Char} (hc : c ∉ cs) {b : UInt8}
    (hb : b ∈ String.utf8EncodeChar c) : isByteOf cs b = false := by
  rw [isByteOf, List.any_eq_false]
  intro d hd heq
  rw [← eq_of_beq heq] at hb
  exact hc (eq_of_mem_utf8EncodeChar (hcs d hd) hb ▸ hd)

/-- Where none of some ASCII characters occurs, none of their bytes does. -/
theorem isByteOf_eq_false_of_mem_bytes (hcs : Ascii cs) {t : Text} (ht : t.Disjoint cs)
    {b : UInt8} (hb : b ∈ bytes t) : isByteOf cs b = false := by
  obtain ⟨c, hc, hb⟩ := List.mem_flatMap.mp hb
  exact isByteOf_eq_false hcs (ht hc) hb

/-- A text stops a search if it begins with a character that is searched for, or is empty. -/
def Stops (cs : List Char) (t : Text) : Prop := ∀ c ∈ t.head?, c ∈ cs

theorem stops_cons {c : Char} (hc : c ∈ cs) (t : Text) : Stops cs (c :: t) :=
  fun _ hd => Option.some.inj hd ▸ hc

theorem Stops.cons {t : Text} (h : Stops cs t) (c : Char) : Stops (c :: cs) t :=
  fun d hd => List.mem_cons_of_mem c (h d hd)

/-- Every text is passed over up to where a search stops. -/
theorem exists_stops (cs : List Char) (t : Text) :
    ∃ passed rest, t = passed ++ rest ∧ passed.Disjoint cs ∧ Stops cs rest := by
  refine ⟨t.takeWhile (· ∉ cs), t.dropWhile (· ∉ cs), List.takeWhile_append_dropWhile.symm,
    fun c hc => ?_, fun c hc => ?_⟩
  · simpa using List.mem_takeWhile_imp hc
  · have hstop := List.head?_dropWhile_not (· ∉ cs) t
    rw [hc] at hstop
    simpa using hstop

/-- What stops a search begins with its first character or stops a search for the others. -/
theorem Stops.eq_cons_or {c : Char} {t : Text} (h : Stops (c :: cs) t) :
    (∃ rest, t = c :: rest) ∨ Stops cs t := by
  cases t with
  | nil => exact .inr fun c hc => nomatch hc
  | cons d rest =>
    rcases List.mem_cons.mp (h d rfl) with rfl | hd
    · exact .inl ⟨rest, rfl⟩
    · exact .inr fun c hc => Option.some.inj hc ▸ hd

/-- A search ends at once where it is stopped. -/
theorem findIdx_bytes_of_stops (hcs : Ascii cs) {t : Text} (ht : Stops cs t) :
    (bytes t).findIdx (isByteOf cs) = 0 := by
  cases t with
  | nil => rfl
  | cons c t =>
    have hc : c ∈ cs := ht c rfl
    rw [bytes_cons, utf8EncodeChar_of_ascii (hcs c hc), List.singleton_append, List.findIdx_cons,
      isByteOf_toUInt8 hc, cond_true]

/-- What is searched for is found behind what is passed over. -/
theorem findByte_append (hcs : Ascii cs) (before : Text) {passed rest : Text}
    (hpassed : passed.Disjoint cs) (hrest : Stops cs rest) :
    findByte cs (byteLength before) (bytes (before ++ passed ++ rest)) =
      byteLength (before ++ passed) := by
  have hnone : (bytes passed).findIdx (isByteOf cs) = (bytes passed).length := by
    rw [List.findIdx_eq_length]
    exact fun b hb => isByteOf_eq_false_of_mem_bytes hcs hpassed hb
  rw [findByte, List.append_assoc, bytes_append, ← length_bytes before, List.drop_left, bytes_append,
    List.findIdx_append, hnone, if_neg (Nat.lt_irrefl _), findIdx_bytes_of_stops hcs hrest,
    Nat.zero_add, length_bytes, length_bytes, byteLength_append]

/-- The byte of an ASCII character is not found where the character does not occur. -/
theorem findIdx?_bytes_eq_none {c : Char} (hc : c.toNat < 128) {t : Text} (ht : c ∉ t) :
    (bytes t).findIdx? (isByteOf [c]) = none := by
  rw [List.findIdx?_eq_none_iff]
  have hascii : Ascii [c] := fun d hd => List.mem_singleton.mp hd ▸ hc
  exact fun b hb => isByteOf_eq_false_of_mem_bytes hascii (List.disjoint_singleton.mpr ht) hb

/-- The first occurrence of a character. -/
theorem findIdx?_bytes_append {c : Char} (hc : c.toNat < 128) {before : Text} (rest : Text)
    (hbefore : c ∉ before) :
    (bytes (before ++ c :: rest)).findIdx? (isByteOf [c]) = some (byteLength before) := by
  rw [bytes_append, List.findIdx?_append, findIdx?_bytes_eq_none hc hbefore, bytes_cons,
    utf8EncodeChar_of_ascii hc, List.singleton_append, List.findIdx?_cons,
    isByteOf_toUInt8 List.mem_cons_self, length_bytes]
  simp

/-! ## Letter case -/

/-- The lower case of an ASCII character is one, and has the byte in lower case. -/
theorem toLower_of_ascii {c : Char} (hc : c.toNat < 128) :
    c.toLower.toNat < 128 ∧ c.toLower.toUInt8 = foldByte c.toUInt8 :=
  forall_of_ascii (P := fun c => c.toLower.toNat < 128 ∧ c.toLower.toUInt8 = foldByte c.toUInt8)
    (by decide) hc

theorem toLower_of_le {c : Char} (hc : 128 ≤ c.toNat) : c.toLower = c := by
  refine dif_neg fun hletter => ?_
  have hle : c.toNat ≤ 90 := UInt32.le_iff_toNat_le.mp hletter.2
  omega

theorem foldByte_of_le {b : UInt8} (hb : 128 ≤ b.toNat) : foldByte b = b := by
  refine if_neg fun hletter => ?_
  have hle : b.toNat ≤ 90 := UInt8.le_iff_toNat_le.mp hletter.2
  omega

/-- Lower case can be had byte by byte, for a character. -/
theorem utf8EncodeChar_toLower (c : Char) :
    String.utf8EncodeChar c.toLower = (String.utf8EncodeChar c).map foldByte := by
  by_cases hc : c.toNat < 128
  · obtain ⟨hlt, hbyte⟩ := toLower_of_ascii hc
    rw [utf8EncodeChar_of_ascii hlt, utf8EncodeChar_of_ascii hc, hbyte, List.map_singleton]
  · have hle := Nat.le_of_not_lt hc
    rw [toLower_of_le hle, List.map_congr_left, List.map_id]
    exact fun b hb => foldByte_of_le (le_of_mem_utf8EncodeChar hle hb)

/-- Lower case can be had byte by byte, for a text. -/
theorem bytes_foldCase (t : Text) : bytes (foldCase t) = (bytes t).map foldByte := by
  rw [foldCase, bytes, bytes, List.flatMap_map, List.map_flatMap]
  exact List.flatMap_congr fun c _ => utf8EncodeChar_toLower c

/-- Lower case has the same length in bytes. -/
@[simp] theorem byteLength_foldCase (t : Text) : byteLength (foldCase t) = byteLength t := by
  rw [← length_bytes, bytes_foldCase, List.length_map, length_bytes]

/-- Letters of either case are encoded in one byte. -/
theorem byteLength_eq_of_foldCase_eq {s t : Text} (h : foldCase s = foldCase t) :
    byteLength s = byteLength t := by
  rw [← byteLength_foldCase s, h, byteLength_foldCase]

/-- The bytes of a text tell it. -/
theorem bytes_inj {s t : Text} : bytes s = bytes t ↔ s = t := by
  refine ⟨fun h => ?_, congrArg bytes⟩
  have hencode : s.utf8Encode = t.utf8Encode := congrArg List.toByteArray h
  rw [← String.toByteArray_ofList, ← String.toByteArray_ofList, String.toByteArray_inj] at hencode
  exact String.ofList_injective hencode

/-- The bytes of two texts agree but for case exactly if their characters do. -/
theorem eqIgnoringCase_iff {s t : Text} :
    eqIgnoringCase s t = true ↔ foldCase s = foldCase t := by
  rw [eqIgnoringCase, beq_iff_eq, ← bytes_foldCase, ← bytes_foldCase, bytes_inj]

/-! ## Positions -/

/-- A position between two characters of a text, or at one of its ends. -/
def IsBoundary (t : Text) (i : Nat) : Prop := ∃ head rest, t = head ++ rest ∧ byteLength head = i

/-- The byte behind a position tells whether it lies between characters. -/
theorem isBoundary_eq_true_iff {i : Nat} {bs : List UInt8} :
    isBoundary i bs = true ↔ i = 0 ∨ i = bs.length ∨ ∃ b, bs[i]? = some b ∧ b.IsUTF8FirstByte := by
  simp [isBoundary, or_assoc, Option.any_eq_true]

/-- The byte behind a position tells whether it lies between characters. -/
theorem isBoundary_bytes_iff {t : Text} {i : Nat} :
    isBoundary i (bytes t) = true ↔ IsBoundary t i := by
  rw [isBoundary_eq_true_iff, length_bytes]
  constructor
  · rintro (rfl | rfl | ⟨b, hb, hfirst⟩)
    · exact ⟨[], t, rfl, rfl⟩
    · exact ⟨t, [], (List.append_nil t).symm, rfl⟩
    · obtain ⟨hi, -⟩ := List.getElem?_eq_some_iff.mp hb
      rw [length_bytes] at hi
      obtain ⟨head, c, rest, j, rfl, rfl, hj⟩ := exists_char_of_lt hi
      obtain ⟨b', hb', -, hfirst'⟩ := exists_getElem?_bytes head rest hj
      obtain rfl := Option.some.inj (hb.symm.trans hb')
      exact ⟨head, c :: rest, rfl, by rw [hfirst'.mp hfirst, Nat.add_zero]⟩
  · rintro ⟨head, rest, rfl, rfl⟩
    cases rest with
    | nil => exact .inr (.inl (by rw [List.append_nil]))
    | cons c rest =>
      obtain ⟨b, hb, -, hfirst⟩ := exists_getElem?_bytes head rest c.utf8Size_pos
      exact .inr (.inr ⟨b, hb, hfirst.mpr rfl⟩)

/-- A text is split at the length of its head in bytes. -/
theorem splitAtByte?_append (head rest : Text) :
    splitAtByte? (byteLength head) (head ++ rest) = some (head, rest) := by
  induction head with
  | nil => rw [byteLength_nil, List.nil_append, splitAtByte?]
  | cons c head ih =>
    obtain ⟨n, hn⟩ : ∃ n, byteLength (c :: head) = n + 1 :=
      Nat.exists_eq_add_one.mpr (byteLength_pos (List.cons_ne_nil c head))
    have hsize : n + 1 = c.utf8Size + byteLength head := hn ▸ byteLength_cons c head
    rw [hn, List.cons_append, splitAtByte?, if_pos (by omega), hsize, Nat.add_sub_cancel_left, ih]
    rfl

/-- Between two characters begins and ends what stands there. -/
theorem slice?_append (before found after : Text) :
    slice? (byteLength before) (byteLength (before ++ found)) (before ++ found ++ after) =
      some found := by
  rw [slice?, byteLength_append, if_pos (Nat.le_add_right _ _), List.append_assoc,
    splitAtByte?_append, Nat.add_sub_cancel_left]
  simp only [Option.bind_eq_bind, Option.bind_some, splitAtByte?_append, Option.pure_def]

/-- A text has one beginning of a given length. -/
theorem append_inj_of_byteLength {s s' t t' : Text} (h : s ++ t = s' ++ t')
    (hlength : byteLength s = byteLength s') : s = s' ∧ t = t' := by
  have hsplit := splitAtByte?_append s t
  rw [h, hlength, splitAtByte?_append] at hsplit
  exact Prod.mk.inj (Option.some.inj hsplit.symm)

end ContentFilter.Text
