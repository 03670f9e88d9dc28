import ContentFilter.Text.Basic

/-!
# Text as bytes

Whoever looks for ASCII characters only can look at the bytes of a text: none of these characters
is encoded as part of another one. What is found is a position in bytes. Two positions have a text
between them if both lie between characters. Whether a position does is told from the byte behind
it, and that two texts differ in the case of ASCII letters only, from their bytes.

In the engine: the byte scans of `get_scheme_end` and `get_host_position`, and the comparisons of
`is_domain_or_subdomain`.
-/

set_option autoImplicit false

namespace ContentFilter.Text

/-- The UTF-8 encoding of a text. -/
def bytes (t : Text) : List UInt8 := t.flatMap String.utf8EncodeChar

@[simp] theorem bytes_nil : bytes [] = [] := rfl

theorem bytes_cons (c : Char) (t : Text) : bytes (c :: t) = String.utf8EncodeChar c ++ bytes t :=
  List.flatMap_cons

/-- The bytes of two texts in a row are those of the one and then of the other. -/
@[simp] theorem bytes_append (s t : Text) : bytes (s ++ t) = bytes s ++ bytes t :=
  List.flatMap_append

/-- A text has as many bytes as its length in bytes says. -/
@[simp] theorem length_bytes (t : Text) : (bytes t).length = byteLength t := by
  induction t with
  | nil => rfl
  | cons c t ih =>
    rw [bytes_cons, List.length_append, String.length_utf8EncodeChar, ih, byteLength_cons]

/-- Whether a byte encodes one of some ASCII characters. -/
def isByteOf (cs : List Char) (b : UInt8) : Bool := cs.any (·.toUInt8 == b)

/-- Where the first byte from `start` on stands that encodes one of some ASCII characters; the end
if there is none. -/
def findByte (cs : List Char) (start : Nat) (bs : List UInt8) : Nat :=
  start + (bs.drop start).findIdx (isByteOf cs)

/-! ## Letter case -/

/-- A byte in lower case, if it encodes an ASCII letter. -/
def foldByte (b : UInt8) : UInt8 :=
  if 'A'.toUInt8 ≤ b ∧ b ≤ 'Z'.toUInt8 then b + ('a'.toUInt8 - 'A'.toUInt8) else b

/-- Whether two texts have the same bytes but for the case of ASCII letters. -/
def eqIgnoringCase (s t : Text) : Bool := (bytes s).map foldByte == (bytes t).map foldByte

/-! ## Positions -/

/-- Whether a position is the beginning or the end, or a character begins there. -/
def isBoundary (i : Nat) (bs : List UInt8) : Bool :=
  i == 0 || i == bs.length || bs[i]?.any fun b => decide b.IsUTF8FirstByte

/-- Split after the first `n` bytes, if they are whole characters. -/
def splitAtByte? : Nat → Text → Option (Text × Text)
  | 0, t => some ([], t)
  | _ + 1, [] => none
  | n + 1, c :: t =>
    if c.utf8Size ≤ n + 1 then
      (splitAtByte? (n + 1 - c.utf8Size) t).map fun (head, rest) => (c :: head, rest)
    else none

/-- The text between two positions, if both lie between characters. -/
def slice? (start stop : Nat) (t : Text) : Option Text :=
  if start ≤ stop then do
    let (_, rest) ← splitAtByte? start t
    let (found, _) ← splitAtByte? (stop - start) rest
    return found
  else none

end ContentFilter.Text
