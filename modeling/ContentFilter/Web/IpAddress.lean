import ContentFilter.Text.Cut

/-!
# Numeric addresses

A host may be a numeric address, which has no domain. A short address is four decimal numbers
below 256, without leading zeros, between full stops. A long address is eight groups of one to
four hexadecimal digits between colons; one run of groups may be left out, which two colons
stand for, and a short address may stand for the last two groups.

In the engine: the test for addresses with which `get_etld1` begins.
-/

set_option autoImplicit false

namespace ContentFilter.IpAddress

/-- Whether a text is a number of a short address. -/
def isOctet (t : Text) : Bool :=
  t.length ≤ 3 && (t.head? != some '0' || t.length == 1) &&
    match Text.toNat? t with
    | some n => n < 256
    | none => false

/-- Whether a text is a short address. -/
def isShort (t : Text) : Bool :=
  let fields := Text.cut (Text.every '.') t
  fields.length == 4 && fields.all isOctet

/-- Whether a character is a hexadecimal digit. -/
def isHexDigit (c : Char) : Bool :=
  c.isDigit || ('a' ≤ c && c ≤ 'f') || ('A' ≤ c && c ≤ 'F')

/-- Whether a text is a group of a long address. -/
def isGroup (t : Text) : Bool := 1 ≤ t.length && t.length ≤ 4 && t.all isHexDigit

/-- How many groups the fields between colons are, if they are groups. Where `shortLast` holds,
the last field may be a short address, which counts as two. -/
def groupCount? (shortLast : Bool) : List Text → Option Nat
  | [] => some 0
  | [t] => if isGroup t then some 1 else if shortLast && isShort t then some 2 else none
  | t :: u :: rest => if isGroup t then (groupCount? shortLast (u :: rest)).map (· + 1) else none

/-- The fields between the colons of a text; an empty text has none. -/
def fields (t : Text) : List Text := if t.isEmpty then [] else Text.cut (Text.every ':') t

/-- What stands before and after the first two colons in a row. -/
def splitAtGap? : Text → Option (Text × Text)
  | [] => none
  | c :: rest =>
    match c, rest with
    | ':', ':' :: tail => some ([], tail)
    | _, _ => (splitAtGap? rest).map fun (before, after) => (c :: before, after)

/-- Whether a text is a long address. -/
def isLong (t : Text) : Bool :=
  match splitAtGap? t with
  | none => groupCount? true (fields t) == some 8
  | some (before, after) =>
    match groupCount? false (fields before), groupCount? true (fields after) with
    | some m, some n => m + n ≤ 7
    | _, _ => false

/-- Whether a text is a numeric address. -/
def isAddress (t : Text) : Bool := isShort t || isLong t

end ContentFilter.IpAddress
