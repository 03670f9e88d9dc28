import ContentFilter.SyntaxError

/-!
# Value lists

Domains, applications and methods are listed as `a.com,~b.com` or `a.com|~b.com`. The list is
cut at every separator that no backslash directly precedes; each piece, less the blanks around
it, is one item; and `~` in front of a value makes it an exception. Escapes are kept as they
were written, so `ValueList.join` is a plain concatenation.

A list whose last character other than blanks is a separator is refused before it is cut, and
that test does not look at escapes.

In the engine: `Separator`, `ListItem`, `parse_list` and `parse_list_at` (`parse`), `join_list`
(`join`), `partition_items` (`scope`).
-/

set_option autoImplicit false

namespace ContentFilter

/-- What stands between two items of a list. -/
inductive Separator where
  | comma
  | pipe
deriving DecidableEq, Repr, Inhabited

/-- The character of a separator. -/
def Separator.char : Separator → Char
  | comma => ','
  | pipe => '|'

/-- One item of a value list. -/
structure ListItem where
  /-- The value as written, without its exception marker. -/
  value : Text
  /-- Whether an exception marker stands before the value. -/
  exception : Bool
  span : Span
deriving DecidableEq, Repr, Inhabited

/-- The item moved right by `base` bytes. -/
def ListItem.shift (base : Nat) (i : ListItem) : ListItem := { i with span := i.span.shift base }

/-- Two-sided restriction: what a rule is confined to, and what it is kept from. -/
structure Scope where
  permitted : List Text := []
  restricted : List Text := []
deriving DecidableEq, Repr, Inhabited

namespace ValueList

/-- The marker of an exception item. -/
def exceptionMarker : Char := '~'

/-- The item that a piece denotes. `total` is where the list ends: a missing value is reported
from where it should be up to there. A lone marker in a piece that ends before the list does is
followed by the separator that ends the piece. -/
def readItem (total : Nat) (piece : Fragment) : Reading ListItem :=
  let opened := piece.trimStart Text.isBlank
  match opened.text with
  | '~' :: rest =>
    let body := opened.after [exceptionMarker] rest
    match rest with
    | [] =>
      -- The piece is a lone marker; only a separator can stand between it and the end.
      if body.offset < total then refuse .separatorAfterNegation (.point body.offset)
      else refuse .emptyItem ⟨body.offset, total⟩
    | c :: _ =>
      if c = exceptionMarker then refuse .multipleNegation (.point body.offset)
      else if Text.isBlank c then refuse .blankAfterNegation (.point body.offset)
      else
        let value := body.trimEnd Text.isBlank
        .ok ⟨value.text, true, value.span⟩
  | [] => refuse .emptyItem ⟨opened.offset, total⟩
  | _ :: _ =>
    let value := opened.trimEnd Text.isBlank
    .ok ⟨value.text, false, value.span⟩

/-- The items of the pieces in order, or the error of the first piece that is none. -/
def readItems (total : Nat) : List Fragment → Reading (List ListItem)
  | [] => .ok []
  | piece :: rest => do
    let item ← readItem total piece
    let items ← readItems total rest
    return item :: items

/-- Read a value list (`parse_list_at`). -/
def parse (separator : Separator) (list : Fragment) : Reading (List ListItem) :=
  let core := list.trimEnd Text.isBlank
  match core.text.getLast? with
  | none => .ok []
  | some c =>
    -- Refused even behind a backslash, where the cut below would keep the separator as text.
    if c = separator.char then refuse .separatorAtEnd ⟨core.stop - 1, core.stop⟩
    else readItems list.stop (list.cut separator.char)

/-- Write one item. -/
def writeItem (value : Text) (exception : Bool) : Text :=
  if exception then exceptionMarker :: value else value

/-- Write a value list (`join_list`). -/
def join (separator : Separator) (items : List (Text × Bool)) : Text :=
  Text.join [separator.char] (items.map fun i => writeItem i.1 i.2)

/-- The values of a list, the exceptions apart from the others (`partition_items`). -/
def scope (items : List ListItem) : Scope where
  permitted := (items.filter (!·.exception)).map (·.value)
  restricted := (items.filter (·.exception)).map (·.value)

end ValueList

end ContentFilter
