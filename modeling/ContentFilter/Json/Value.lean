import ContentFilter.Text.Basic

/-!
# JSON text

Reports are written as JSON, either compact or indented by two spaces. A string is written
between quotes; the quote, the backslash and the control characters are escaped, and every
other character stands for itself. The members of an object are written in the order in which
they are given, and the library gives them in alphabetical order.
-/

set_option autoImplicit false

namespace ContentFilter

/-- A JSON value. -/
inductive Json where
  | null
  | bool (value : Bool)
  | int (value : Int)
  | str (value : Text)
  | arr (items : List Json)
  | obj (members : List (Text × Json))
deriving Inhabited

namespace Json

/-- The string, or null. -/
def ofOption : Option Text → Json
  | some t => str t
  | none => null

/-! ## Strings -/

/-- A digit of a hexadecimal number. -/
def hexDigit (n : Nat) : Char := "0123456789abcdef".toList.getD n '0'

/-- A character as it is written in a string. -/
def escape (c : Char) : Text :=
  if c = '"' then ['\\', '"']
  else if c = '\\' then ['\\', '\\']
  else if 0x20 ≤ c.toNat then [c]
  else if c.toNat = 0x08 then ['\\', 'b']
  else if c.toNat = 0x09 then ['\\', 't']
  else if c.toNat = 0x0A then ['\\', 'n']
  else if c.toNat = 0x0C then ['\\', 'f']
  else if c.toNat = 0x0D then ['\\', 'r']
  else ['\\', 'u', '0', '0', hexDigit (c.toNat / 16), hexDigit (c.toNat % 16)]

/-- A string literal. -/
def quote (t : Text) : Text := ['"'] ++ t.flatMap escape ++ ['"']

/-! ## Values -/

/-- How the parts of arrays and objects are set apart. -/
structure Layout where
  /-- What stands before an item, a member or a closing bracket, by depth. -/
  gap : Nat → Text
  /-- What stands between the colon of a member and its value. -/
  space : Text

/-- A line feed and the indentation of a depth. -/
def newline (depth : Nat) : Text := '\n' :: List.replicate (2 * depth) ' '

namespace Layout

/-- No white space. -/
def compact : Layout := ⟨fun _ => [], []⟩

/-- Every item, member and closing bracket on a line of its own. -/
def indented : Layout := ⟨newline, [' ']⟩

end Layout

mutual

/-- A value in a layout, inside a value at `depth`. An empty array or object is set without a
gap. -/
def printAt (l : Layout) (depth : Nat) : Json → Text
  | null => "null".toList
  | bool true => "true".toList
  | bool false => "false".toList
  | int i => Text.ofInt i
  | str t => quote t
  | arr [] => ['[', ']']
  | arr (v :: rest) => ['['] ++ printItems l (depth + 1) (v :: rest) ++ l.gap depth ++ [']']
  | obj [] => ['\x7b', '\x7d']
  | obj (m :: rest) =>
    ['\x7b'] ++ printMembers l (depth + 1) (m :: rest) ++ l.gap depth ++ ['\x7d']

/-- The items of an array, with commas between them. -/
def printItems (l : Layout) (depth : Nat) : List Json → Text
  | [] => []
  | [v] => l.gap depth ++ printAt l depth v
  | v :: w :: rest => l.gap depth ++ printAt l depth v ++ [','] ++ printItems l depth (w :: rest)

/-- The members of an object, with commas between them. -/
def printMembers (l : Layout) (depth : Nat) : List (Text × Json) → Text
  | [] => []
  | [(name, v)] => l.gap depth ++ quote name ++ [':'] ++ l.space ++ printAt l depth v
  | (name, v) :: m :: rest =>
    l.gap depth ++ quote name ++ [':'] ++ l.space ++ printAt l depth v ++ [',']
      ++ printMembers l depth (m :: rest)

end

/-- A value without white space. -/
def compact (v : Json) : Text := printAt .compact 0 v

/-- A value in indented form. -/
def indented (v : Json) : Text := printAt .indented 0 v

end Json

end ContentFilter
