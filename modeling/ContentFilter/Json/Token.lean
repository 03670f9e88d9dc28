import ContentFilter.Text.Basic

/-!
# JSON tokens

The strict JSON of configurations: no comments, no signs or digits beyond the number grammar,
no control characters in strings, white space only of the four usual kinds.

A string literal may be well formed without denoting a text, because an escape in it names one
half of a surrogate pair. Likewise a number may be well formed without denoting a natural
number. Both occur in parts of a configuration that nobody looks at, where they do no harm; so
tokens carry the denoted text or number as an option.
-/

set_option autoImplicit false

namespace ContentFilter.Json

/-- A token. -/
inductive Token where
  | openArray
  | closeArray
  | openObject
  | closeObject
  | comma
  | colon
  | null
  | bool (value : Bool)
  /-- A number; `natural` is the natural number that its digits alone denote. -/
  | number (natural : Option Nat)
  /-- A string; `text` is the text it denotes. -/
  | string (text : Option Text)
deriving DecidableEq, Repr, Inhabited

/-! ## Strings -/

/-- A part of a string literal. -/
inductive StringPart where
  /-- A character, as itself or as a short escape. -/
  | char (c : Char)
  /-- A UTF-16 code unit, as a long escape. -/
  | unit (n : Nat)
deriving DecidableEq, Repr

/-- The value of a hexadecimal digit. -/
def hexValue? (c : Char) : Option Nat :=
  if c.isDigit then some (c.toNat - '0'.toNat)
  else if 'a' ≤ c && c ≤ 'f' then some (c.toNat - 'a'.toNat + 10)
  else if 'A' ≤ c && c ≤ 'F' then some (c.toNat - 'A'.toNat + 10)
  else none

/-- The value of four hexadecimal digits. -/
def codeUnit? (a b c d : Char) : Option Nat := do
  return (((← hexValue? a) * 16 + (← hexValue? b)) * 16 + (← hexValue? c)) * 16 + (← hexValue? d)

/-- The character that a short escape denotes. -/
def shortEscape? : Char → Option Char
  | '"' => some '"'
  | '\\' => some '\\'
  | '/' => some '/'
  | 'b' => some '\x08'
  | 'f' => some '\x0c'
  | 'n' => some '\n'
  | 'r' => some '\r'
  | 't' => some '\t'
  | _ => none

/-- Read a string literal from after its opening quote: its parts, and what follows its closing
quote. `done` holds the parts so far, last one first. -/
def readString (done : List StringPart) : Text → Option (List StringPart × Text)
  | [] => none
  | '"' :: rest => some (done.reverse, rest)
  | '\\' :: 'u' :: a :: b :: c :: d :: rest =>
    match codeUnit? a b c d with
    | some n => readString (.unit n :: done) rest
    | none => none
  | '\\' :: e :: rest =>
    match shortEscape? e with
    | some c => readString (.char c :: done) rest
    | none => none
  | c :: rest =>
    if c = '\\' ∨ c.toNat < 0x20 then none else readString (.char c :: done) rest

/-- What follows a string literal is shorter than what the reader was given. -/
theorem length_readString {done : List StringPart} {t : Text} {parts : List StringPart}
    {rest : Text} (h : readString done t = some (parts, rest)) : rest.length < t.length := by
  fun_induction readString done t <;> simp_all <;> omega

/-- The text that the parts denote. A long escape for the first half of a surrogate pair must be
followed by one for the second half, and the latter stands nowhere else. -/
def denoted? : List StringPart → Option Text
  | [] => some []
  | .char c :: rest => (denoted? rest).map (c :: ·)
  | .unit high :: .unit low :: rest =>
    -- A pair counts as a pair only if both halves are written as escapes.
    if 0xD800 ≤ high ∧ high < 0xDC00 then
      if 0xDC00 ≤ low ∧ low < 0xE000 then
        (denoted? rest).map
          (Char.ofNat (0x10000 + (high - 0xD800) * 0x400 + (low - 0xDC00)) :: ·)
      else none
    else if 0xDC00 ≤ high ∧ high < 0xE000 then none
    else (denoted? (.unit low :: rest)).map (Char.ofNat high :: ·)
  | .unit n :: rest =>
    if 0xD800 ≤ n ∧ n < 0xE000 then none else (denoted? rest).map (Char.ofNat n :: ·)

/-! ## Numbers -/

/-- Drop one or more digits. -/
def dropDigits? (t : Text) : Option Text :=
  match t with
  | [] => none
  | c :: rest => if c.isDigit then some (rest.dropWhile Char.isDigit) else none

/-- Drop the fraction of a number, if there is one. -/
def dropFraction? : Text → Option Text
  | '.' :: rest => dropDigits? rest
  | t => some t

/-- Drop the exponent of a number, if there is one. -/
def dropExponent? : Text → Option Text
  | c :: rest =>
    if c = 'e' ∨ c = 'E' then
      match rest with
      | '+' :: digits => dropDigits? digits
      | '-' :: digits => dropDigits? digits
      | digits => dropDigits? digits
    else some (c :: rest)
  | [] => some []

/-- Drop the part of a number before fraction and exponent: a zero, or digits that do not begin
with one. -/
def dropWhole? : Text → Option Text
  | '0' :: rest => if (rest.head?.map Char.isDigit).getD false then none else some rest
  | t => dropDigits? t

/-- Drop a minus sign, if there is one. -/
def dropMinus : Text → Text
  | '-' :: rest => rest
  | t => t

/-- Read a number: the natural number that it is, and what follows it. A sign, a fraction and an
exponent each make it something else. -/
def readNumber (t : Text) : Option (Option Nat × Text) := do
  let whole ← dropWhole? (dropMinus t)
  let fraction ← dropFraction? whole
  let rest ← dropExponent? fraction
  -- What has been dropped up to here; with a minus sign it is not made of digits only.
  let digits := t.take (t.length - whole.length)
  return (if rest.length = whole.length then Text.toNat? digits else none, rest)

theorem length_dropDigits {t rest : Text} (h : dropDigits? t = some rest) :
    rest.length < t.length := by
  unfold dropDigits? at h
  split at h
  · cases h
  · next c tail =>
    split at h
    · cases h
      have := (List.dropWhile_suffix (l := tail) Char.isDigit).length_le
      simp only [List.length_cons]
      omega
    · cases h

theorem length_dropFraction {t rest : Text} (h : dropFraction? t = some rest) :
    rest.length ≤ t.length := by
  unfold dropFraction? at h
  split at h
  · have := length_dropDigits h
    simp only [List.length_cons]
    omega
  · cases h
    exact Nat.le_refl _

theorem length_dropExponent {t rest : Text} (h : dropExponent? t = some rest) :
    rest.length ≤ t.length := by
  unfold dropExponent? at h
  split at h
  · split at h
    · split at h
      all_goals
        have := length_dropDigits h
        simp only [List.length_cons] at *
        omega
    · cases h
      exact Nat.le_refl _
  · cases h
    exact Nat.le_refl _

theorem length_dropWhole {t rest : Text} (h : dropWhole? t = some rest) :
    rest.length < t.length := by
  unfold dropWhole? at h
  split at h
  · split at h
    · cases h
    · cases h
      simp
  · exact length_dropDigits h

/-- What follows a number is shorter. -/
theorem length_readNumber {t rest : Text} {n : Option Nat}
    (h : readNumber t = some (n, rest)) : rest.length < t.length := by
  simp only [readNumber, Option.bind_eq_bind, Option.bind_eq_some_iff, Option.pure_def,
    Option.some.injEq, Prod.mk.injEq] at h
  obtain ⟨whole, hw, fraction, hf, tail, he, -, rfl⟩ := h
  have h1 := length_dropWhole hw
  have h2 := length_dropFraction hf
  have h3 := length_dropExponent he
  have h4 : (dropMinus t).length ≤ t.length := by
    unfold dropMinus
    split <;> simp
  omega

/-! ## Tokens -/

/-- Whether a character is white space between tokens. -/
def isSpace (c : Char) : Bool := c == ' ' || c == '\t' || c == '\n' || c == '\r'

/-- The token that one character is by itself. -/
def punctuation? : Char → Option Token
  | '[' => some .openArray
  | ']' => some .closeArray
  | '\x7b' => some .openObject
  | '\x7d' => some .closeObject
  | ',' => some .comma
  | ':' => some .colon
  | _ => none

/-- The words that are tokens. -/
def words : List (Text × Token) :=
  [("null".toList, .null), ("true".toList, .bool true), ("false".toList, .bool false)]

/-- The word that begins a text, as a token, and what follows it. -/
def readWord (t : Text) : Option (Token × Text) :=
  (words.find? fun w => w.1.isPrefixOf t).map fun w => (w.2, t.drop w.1.length)

/-- What follows a word is shorter. -/
theorem length_readWord {t rest : Text} {token : Token} (h : readWord t = some (token, rest)) :
    rest.length < t.length := by
  simp only [readWord, Option.map_eq_some_iff, Prod.mk.injEq] at h
  obtain ⟨w, hw, rfl, rfl⟩ := h
  have hmem := List.mem_of_find?_eq_some hw
  have hhead : w.1.isPrefixOf t = true := by
    simpa using List.find?_some hw
  have hlen := (List.isPrefixOf_iff_prefix.mp hhead).length_le
  have hpos : 0 < w.1.length := by
    simp only [words, List.mem_cons, List.not_mem_nil, or_false] at hmem
    rcases hmem with rfl | rfl | rfl <;> decide
  simp only [List.length_drop]
  omega

/-- Read the token that begins a text: the token, and what follows it. -/
def readToken (t : Text) : Option (Token × Text) :=
  match t with
  | [] => none
  | c :: rest =>
    match punctuation? c with
    | some token => some (token, rest)
    | none =>
      if c = '"' then (readString [] rest).map fun r => (.string (denoted? r.1), r.2)
      else if c = '-' ∨ c.isDigit then (readNumber t).map fun r => (.number r.1, r.2)
      else readWord t

/-- Every token takes characters off the text, so reading token by token ends. -/
theorem length_readToken {t rest : Text} {token : Token}
    (h : readToken t = some (token, rest)) : rest.length < t.length := by
  unfold readToken at h
  split at h
  · cases h
  · next c tail =>
    split at h
    · cases h
      simp
    · split at h
      · obtain ⟨⟨parts, after⟩, hr, he⟩ := Option.map_eq_some_iff.mp h
        cases he
        have := length_readString hr
        simp only [List.length_cons]
        omega
      · split at h
        · obtain ⟨⟨n, after⟩, hr, he⟩ := Option.map_eq_some_iff.mp h
          cases he
          exact length_readNumber hr
        · exact length_readWord h

/-- The tokens of a text. `done` holds the tokens so far, last one first. -/
def tokenize (done : List Token) (t : Text) : Option (List Token) :=
  match t with
  | [] => some done.reverse
  | c :: rest =>
    if isSpace c then tokenize done rest
    else match _h : readToken (c :: rest) with
      | some (token, after) => tokenize (token :: done) after
      | none => none
termination_by t.length
decreasing_by
  · simp
  · exact length_readToken _h

end ContentFilter.Json
