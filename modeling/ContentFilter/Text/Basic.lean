/-!
# Text

Filter lists are text, and almost everything this library says about them it says by
position: an error points at the characters that caused it, a modifier remembers where it
stood. `Text` is therefore a list of characters, which the readers can recurse on, and a
position is a number of UTF-8 bytes, which is a measure on that list. `byteLength` is that
measure; it is additive (`byteLength_append`), and every offset in the library is a sum of
such lengths.

Two notions of blank occur. Rule lines, tokens and contents are trimmed of every Unicode
white space (`isWhite`); value lists know only the space and the tab (`isBlank`).

In the engine: `is_whitespace` (`isBlank`), `skip_ws` and `trim_ws_back` (`trim isBlank`).
-/

set_option autoImplicit false

namespace ContentFilter

/-- A piece of filter-list text, as its list of characters. -/
abbrev Text := List Char

namespace Text

/-! ## Length in bytes -/

/-- The length of the UTF-8 encoding of a text. -/
def byteLength (t : Text) : Nat := t.foldr (fun c n => c.utf8Size + n) 0

@[simp] theorem byteLength_nil : byteLength [] = 0 := rfl

@[simp] theorem byteLength_cons (c : Char) (t : Text) :
    byteLength (c :: t) = c.utf8Size + byteLength t := rfl

/-- Lengths in bytes add up. -/
@[simp] theorem byteLength_append (s t : Text) :
    byteLength (s ++ t) = byteLength s + byteLength t := by
  induction s with
  | nil => rw [List.nil_append, byteLength_nil, Nat.zero_add]
  | cons c s ih => rw [List.cons_append, byteLength_cons, byteLength_cons, ih, Nat.add_assoc]

/-- A text that is not empty has bytes. -/
theorem byteLength_pos {t : Text} (h : t ≠ []) : 0 < byteLength t := by
  obtain ⟨c, t, rfl⟩ := List.exists_cons_of_ne_nil h
  exact Nat.add_pos_left (Char.utf8Size_pos c) _

/-- The bytes that are counted are those of the encoding. -/
theorem size_utf8Encode (t : Text) : t.utf8Encode.size = byteLength t := by
  induction t with
  | nil => rfl
  | cons c t ih =>
    rw [List.utf8Encode_cons, ByteArray.size_append, ih, List.utf8Encode_singleton,
      List.size_toByteArray, String.length_utf8EncodeChar, byteLength_cons]

/-! ## Blanks -/

/-- The characters with the Unicode property `White_Space`. -/
def isWhite (c : Char) : Bool :=
  let n := c.toNat
  (9 ≤ n && n ≤ 13) || n == 0x20 || n == 0x85 || n == 0xA0 || n == 0x1680
    || (0x2000 ≤ n && n ≤ 0x200A) || n == 0x2028 || n == 0x2029 || n == 0x202F
    || n == 0x205F || n == 0x3000

/-- The blanks of a value list: the space and the tab. -/
def isBlank (c : Char) : Bool := c == ' ' || c == '\t'

/-- Blanks are white space. -/
theorem isWhite_of_isBlank {c : Char} (h : isBlank c = true) : isWhite c = true := by
  simp only [isBlank, Bool.or_eq_true, beq_iff_eq] at h
  rcases h with rfl | rfl <;> decide

/-- Drop the longest tail whose characters all satisfy `p`. -/
def dropTailWhile (p : Char → Bool) (t : Text) : Text := (t.reverse.dropWhile p).reverse

/-- Drop the longest head and then the longest tail whose characters all satisfy `p`. -/
def trim (p : Char → Bool) (t : Text) : Text := dropTailWhile p (t.dropWhile p)

/-! ## Letter case -/

/-- The text with its ASCII letters in lower case. Other letters keep their case, since names
and hosts are compared on their ASCII letters alone. -/
def foldCase (t : Text) : Text := t.map Char.toLower

@[simp] theorem length_foldCase (t : Text) : (foldCase t).length = t.length := by
  simp [foldCase]

@[simp] theorem foldCase_eq_nil_iff {t : Text} : foldCase t = [] ↔ t = [] := List.map_eq_nil_iff

/-! ## Numbers -/

/-- The decimal digits of a number. -/
def ofNat (n : Nat) : Text := (toString n).toList

/-- The decimal digits of an integer, after a minus sign if it is negative. -/
def ofInt (i : Int) : Text := (toString i).toList

/-- The number that a non-empty text of ASCII digits denotes. -/
def toNat? (t : Text) : Option Nat :=
  if t.isEmpty || t.any (fun c => !c.isDigit) then none
  else some (t.foldl (fun n c => 10 * n + (c.toNat - '0'.toNat)) 0)

/-! ## Joining -/

/-- The texts in order, with `separator` between any two of them. -/
def join (separator : Text) : List Text → Text
  | [] => []
  | [t] => t
  | t :: u :: rest => t ++ separator ++ join separator (u :: rest)

end Text

end ContentFilter
