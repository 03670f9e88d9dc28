import ContentFilter.Json.Token
import ContentFilter.Json.Value

/-!
# String literals are read back

A string literal ends at its closing quote and nowhere before, whatever characters it holds: what
would end it or stand for something else in it is escaped. So the token reader reads the text that
was written, and stops right behind the literal, whatever follows there (`readToken_quote`).
-/

set_option autoImplicit false

namespace ContentFilter.Json

/-! ## Characters -/

/-- The control characters that have a short escape. -/
def shortControls : List Char := ['\x08', '\t', '\n', '\x0c', '\r']

/-- What a character is read as. -/
def part (c : Char) : StringPart :=
  if 0x20 ≤ c.toNat ∨ c ∈ shortControls then .char c else .unit c.toNat

/-- A character that needs no escape stands for itself. -/
theorem readString_plain (done : List StringPart) {c : Char} (rest : Text) (hquote : c ≠ '"')
    (hbackslash : c ≠ '\\') (hc : 0x20 ≤ c.toNat) :
    readString done (c :: rest) = readString (.char c :: done) rest := by
  have hplain : ¬ (c = '\\' ∨ c.toNat < 0x20) := by
    rintro (h | h)
    · exact hbackslash h
    · omega
  rw [readString, if_neg hplain]
  · exact hquote
  · rintro _ _ _ _ _ rfl
    exact absurd rfl hbackslash
  · rintro _ _ rfl
    exact absurd rfl hbackslash

theorem hexValue?_hexDigit : ∀ n < 16, hexValue? (hexDigit n) = some n := by decide

/-- Two hexadecimal digits behind two zeros give a number below 256 back. -/
theorem codeUnit?_hexDigit {n : Nat} (h : n < 256) :
    codeUnit? '0' '0' (hexDigit (n / 16)) (hexDigit (n % 16)) = some n := by
  have hzero : hexValue? '0' = some 0 := by decide
  rw [codeUnit?, hzero, hexValue?_hexDigit (n / 16) (by omega), hexValue?_hexDigit (n % 16) (by omega)]
  exact congrArg some (by omega)

/-- The escape of a control character without a short escape. -/
theorem escape_of_control {c : Char} (hc : c.toNat < 0x20) (hlong : c ∉ shortControls) :
    escape c = ['\\', 'u', '0', '0', hexDigit (c.toNat / 16), hexDigit (c.toNat % 16)] := by
  have hne : ∀ d ∈ shortControls, c.toNat ≠ d.toNat := by
    rintro d hd heq
    exact hlong (Char.toNat_inj.mp heq ▸ hd)
  have h08 : c.toNat ≠ 0x08 := hne '\x08' (by decide)
  have h09 : c.toNat ≠ 0x09 := hne '\t' (by decide)
  have h0A : c.toNat ≠ 0x0A := hne '\n' (by decide)
  have h0C : c.toNat ≠ 0x0C := hne '\x0c' (by decide)
  have h0D : c.toNat ≠ 0x0D := hne '\r' (by decide)
  have hquote : c ≠ '"' := by
    rintro rfl
    exact absurd hc (by decide)
  have hbackslash : c ≠ '\\' := by
    rintro rfl
    exact absurd hc (by decide)
  rw [escape, if_neg hquote, if_neg hbackslash, if_neg (Nat.not_le_of_lt hc), if_neg h08, if_neg h09,
    if_neg h0A, if_neg h0C, if_neg h0D]

/-- The written form of a character is read as one part, whatever follows. -/
theorem readString_escape (done : List StringPart) (c : Char) (rest : Text) :
    readString done (escape c ++ rest) = readString (part c :: done) rest := by
  by_cases hquote : c = '"'
  · subst hquote
    rfl
  by_cases hbackslash : c = '\\'
  · subst hbackslash
    rfl
  by_cases hc : 0x20 ≤ c.toNat
  · rw [escape, if_neg hquote, if_neg hbackslash, if_pos hc, part, if_pos (.inl hc)]
    exact readString_plain done rest hquote hbackslash hc
  by_cases hshort : c ∈ shortControls
  · simp only [shortControls, List.mem_cons, List.not_mem_nil, or_false] at hshort
    rcases hshort with rfl | rfl | rfl | rfl | rfl <;> rfl
  · rw [escape_of_control (Nat.lt_of_not_le hc) hshort, part, if_neg (not_or.mpr ⟨hc, hshort⟩)]
    simp only [List.cons_append, List.nil_append, readString]
    rw [codeUnit?_hexDigit (by omega)]

/-! ## Literals -/

/-- The inside of a literal is read as one part for each character. -/
theorem readString_flatMap_escape (done : List StringPart) (t rest : Text) :
    readString done (t.flatMap escape ++ '"' :: rest) =
      some (done.reverse ++ t.map part, rest) := by
  induction t generalizing done with
  | nil => simp [readString]
  | cons c t ih =>
    rw [List.flatMap_cons, List.append_assoc, readString_escape, ih]
    simp

/-- A code unit that is no half of a surrogate pair denotes a character. -/
theorem denoted?_unit_cons {n : Nat} (hn : n < 0xD800) (rest : List StringPart) :
    denoted? (.unit n :: rest) = (denoted? rest).map (Char.ofNat n :: ·) := by
  have hhigh : ¬ (0xD800 ≤ n ∧ n < 0xDC00) := by omega
  have hlow : ¬ (0xDC00 ≤ n ∧ n < 0xE000) := by omega
  have hsurrogate : ¬ (0xD800 ≤ n ∧ n < 0xE000) := by omega
  cases rest with
  | nil => simp only [denoted?, hsurrogate, if_false]
  | cons p rest =>
    cases p with
    | char c => simp only [denoted?, hsurrogate, if_false]
    | unit low => rw [denoted?, if_neg hhigh, if_neg hlow]

/-- What the characters of a text are read as denotes the text. -/
theorem denoted?_map_part (t : Text) : denoted? (t.map part) = some t := by
  induction t with
  | nil => rfl
  | cons c t ih =>
    rw [List.map_cons, part]
    by_cases hc : 0x20 ≤ c.toNat ∨ c ∈ shortControls
    · rw [if_pos hc, denoted?, ih, Option.map_some]
    · rw [if_neg hc, denoted?_unit_cons (by omega), ih, Option.map_some, Char.ofNat_toNat]

/-- **A string literal is read back**, whatever follows it. -/
theorem readToken_quote (t rest : Text) :
    readToken (quote t ++ rest) = some (.string (some t), rest) := by
  have hread := readString_flatMap_escape [] t rest
  rw [List.reverse_nil, List.nil_append] at hread
  have hquote : punctuation? '"' = none := rfl
  rw [quote, List.append_assoc, List.append_assoc, List.singleton_append, List.singleton_append,
    readToken]
  simp only [hquote, if_true, hread, Option.map_some, denoted?_map_part]

end ContentFilter.Json
