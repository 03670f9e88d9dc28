import ContentFilter.Text.Cut

/-!
# Spans and fragments

Readers are handed pieces of a larger text, and what they report has to point into that larger
text. A `Fragment` is such a piece together with the byte offset at which it starts. Every
operation that narrows a fragment (trimming, cutting, splitting) keeps the offset right, so a
reader never does arithmetic on positions: the span of what it found is `Fragment.span`.

Moving a fragment (`Fragment.shift`) moves all that is read from it by the same distance.

In the engine: `Span`, `Span::point`, `Span::shift`; a fragment is a text and the `base` that the
readers are given with it.
-/

set_option autoImplicit false

namespace ContentFilter

/-- A half-open range of bytes. -/
structure Span where
  /-- The first byte of the range. -/
  start : Nat
  /-- The byte after the range. -/
  stop : Nat
deriving DecidableEq, Repr, Inhabited

namespace Span

/-- The span of one byte. -/
def point (offset : Nat) : Span := ⟨offset, offset + 1⟩

/-- The span moved right by `base` bytes. -/
def shift (base : Nat) (s : Span) : Span := ⟨s.start + base, s.stop + base⟩

/-- The number of bytes in the range; a range that ends before it starts has none. -/
def length (s : Span) : Nat := s.stop - s.start

/-- Whether the range holds no byte. -/
def isEmpty (s : Span) : Bool := s.length == 0

/-- A span as it is printed: `start..stop`. -/
def toText (s : Span) : Text := Text.ofNat s.start ++ "..".toList ++ Text.ofNat s.stop

end Span

/-- A piece of a larger text. -/
structure Fragment where
  /-- Where the piece starts in the larger text, in bytes. -/
  offset : Nat
  text : Text
deriving DecidableEq, Repr, Inhabited

namespace Fragment

/-- The whole of a text. -/
def whole (t : Text) : Fragment := ⟨0, t⟩

/-- Where the fragment ends. -/
def stop (f : Fragment) : Nat := f.offset + Text.byteLength f.text

/-- The bytes that the fragment occupies. -/
def span (f : Fragment) : Span := ⟨f.offset, f.stop⟩

/-- The fragment moved right by `base` bytes. -/
def shift (base : Nat) (f : Fragment) : Fragment := ⟨f.offset + base, f.text⟩

/-- What follows `head` in a fragment that begins with it. -/
def after (f : Fragment) (head rest : Text) : Fragment :=
  ⟨f.offset + Text.byteLength head, rest⟩

/-- Drop the leading characters that satisfy `p`. -/
def trimStart (p : Char → Bool) (f : Fragment) : Fragment :=
  f.after (f.text.takeWhile p) (f.text.dropWhile p)

/-- Drop the trailing characters that satisfy `p`. -/
def trimEnd (p : Char → Bool) (f : Fragment) : Fragment :=
  ⟨f.offset, Text.dropTailWhile p f.text⟩

/-- Drop the leading and the trailing characters that satisfy `p`. -/
def trim (p : Char → Bool) (f : Fragment) : Fragment := (f.trimStart p).trimEnd p

/-- The rest of a fragment that begins with `head`. -/
def strip? (head : Text) (f : Fragment) : Option Fragment :=
  if head.isPrefixOf f.text then some (f.after head (f.text.drop head.length)) else none

/-- The parts of a fragment before and after the character that a split removed. -/
def around (f : Fragment) (c : Char) (parts : Text × Text) : Fragment × Fragment :=
  (⟨f.offset, parts.1⟩, f.after (parts.1 ++ [c]) parts.2)

/-- Split at the first `c` that no backslash directly precedes. -/
def splitFirst? (c : Char) (f : Fragment) : Option (Fragment × Fragment) :=
  (Text.splitFirst? (Text.unescaped c) f.text).map (f.around c)

/-- Split at the last `c` that no backslash directly precedes. -/
def splitLast? (c : Char) (f : Fragment) : Option (Fragment × Fragment) :=
  (Text.splitLast? (Text.unescaped c) f.text).map (f.around c)

/-- Give each of the pieces, which stand one separator apart, its offset. -/
def locate (separator : Char) : Nat → List Text → List Fragment
  | _, [] => []
  | offset, piece :: rest =>
    ⟨offset, piece⟩ :: locate separator (offset + Text.byteLength piece + separator.utf8Size) rest

/-- Cut at every `separator` that no backslash directly precedes. -/
def cut (separator : Char) (f : Fragment) : List Fragment :=
  locate separator f.offset (Text.cut (Text.unescaped separator) f.text)

end Fragment

end ContentFilter
