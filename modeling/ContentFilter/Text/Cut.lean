import ContentFilter.Text.Basic

/-!
# Cutting text

Lists, modifier blocks and lines are cut at boundary characters. Whether a character is a
boundary may depend on the character before it: a separator directly preceded by a backslash
belongs to the value it stands in. A `Boundary` is that judgement, and the cuts below walk a
text once, carrying the preceding character along.

A backslash that is itself preceded by a backslash still guards what follows it: the judgement
looks back by one character only.

In the engine: `find_unescaped` (`splitFirst?` at an `unescaped` boundary), and the search from the
end of `find_options_start` (`splitLast?`).
-/

set_option autoImplicit false

namespace ContentFilter.Text

/-- Decides from the preceding character, if there is one, whether a character is a boundary. -/
abbrev Boundary := Option Char → Char → Bool

/-- Every occurrence of `c`. -/
def every (c : Char) : Boundary := fun _ d => d == c

/-- The occurrences of `c` that no backslash directly precedes. -/
def unescaped (c : Char) : Boundary := fun previous d => d == c && previous != some '\\'

/-- Split before the first boundary: what stands before it, and what follows it. -/
def splitFirst? (boundary : Boundary) (t : Text) : Option (Text × Text) :=
  go none [] t
where
  /-- The loop of `splitFirst?`; `seen` holds the characters passed, last one first. -/
  go (previous : Option Char) (seen : Text) : Text → Option (Text × Text)
    | [] => none
    | c :: rest =>
      if boundary previous c then some (seen.reverse, rest) else go (some c) (c :: seen) rest

/-- Split before the last boundary: what stands before it, and what follows it. -/
def splitLast? (boundary : Boundary) (t : Text) : Option (Text × Text) :=
  go [] t.reverse
where
  /-- The loop of `splitLast?`, from the end; `after` holds the characters passed, in order. -/
  go (after : Text) : Text → Option (Text × Text)
    | [] => none
    | c :: before =>
      if boundary before.head? c then some (before.reverse, after) else go (c :: after) before

/-- Cut at every boundary. There is one piece more than there are boundaries. -/
def cut (boundary : Boundary) (t : Text) : List Text :=
  go none [] [] t
where
  /-- The loop of `cut`; `seen` is the piece so far and `done` the pieces before it, both last
  one first. -/
  go (previous : Option Char) (seen : Text) (done : List Text) : Text → List Text
    | [] => (seen.reverse :: done).reverse
    | c :: rest =>
      if boundary previous c then go (some c) [] (seen.reverse :: done) rest
      else go (some c) (c :: seen) done rest

/-! ## Lines -/

/-- Drop one carriage return at the end, if there is one. -/
def dropCarriageReturn (t : Text) : Text :=
  if t.getLast? = some '\r' then t.dropLast else t

/-- The lines of a text. A line ends with a line feed, which a carriage return may precede and
which only the last line may lack; the carriage return belongs to the line end, so a last line
without a line feed keeps it. -/
def lines (t : Text) : List Text :=
  match (cut (every '\n') t).reverse with
  | [] => []
  | last :: ended => (ended.reverse.map dropCarriageReturn) ++ (if last.isEmpty then [] else [last])

end ContentFilter.Text
