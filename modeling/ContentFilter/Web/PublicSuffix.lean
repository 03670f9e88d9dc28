import ContentFilter.Web.IpAddress

/-!
# Registrable domains

Names under a public suffix such as `co.uk` belong to different owners; the domain that an owner
can register is the suffix with one label before it. Which names are public suffixes is a matter
of rules, which are kept up to date elsewhere and are given here: a plain rule names a suffix, a
wildcard rule makes a suffix of every name directly below a parent, and an exception takes one such
name back. Of the rules that fit a host an exception prevails, otherwise the one with the most
labels; where none fits, the last label is the suffix.

In the engine: `get_etld1` (`registrableDomain`).
-/

set_option autoImplicit false

namespace ContentFilter.PublicSuffix

/-- A rule about public suffixes; the labels are those of the name, in order. -/
inductive SuffixRule where
  /-- The name is a public suffix. -/
  | plain (labels : List Text)
  /-- Every name with one label more is a public suffix. -/
  | below (labels : List Text)
  /-- The name is not a public suffix, though it stands directly below a wildcard's parent. -/
  | except (labels : List Text)
deriving DecidableEq, Repr

/-- The labels of a name. -/
def labels (name : Text) : List Text := Text.cut (Text.every '.') name

/-- How many labels of the host are its suffix under a plain or wildcard rule that fits. -/
def SuffixRule.suffixLength? (host : List Text) : SuffixRule → Option Nat
  | plain ls => if ls.isSuffixOf host then some ls.length else none
  | below ls =>
    if ls.isSuffixOf host && ls.length < host.length then some (ls.length + 1) else none
  | except _ => none

/-- How many labels of the host are its suffix under an exception that fits. -/
def SuffixRule.exceptionLength? (host : List Text) : SuffixRule → Option Nat
  | except ls => if ls.isSuffixOf host then some (ls.length - 1) else none
  | _ => none

/-- The host without full stops at its end, ASCII letters in lower case. -/
def normalize (host : Text) : Text := Text.foldCase (Text.dropTailWhile (· == '.') host)

section Rules

variable (rules : List SuffixRule)

/-- How many labels of the host are its public suffix. -/
def suffixLength (host : List Text) : Nat :=
  -- The maximum starts at 1, the length of the suffix that no rule names.
  (rules.findSome? (·.exceptionLength? host)).getD
    ((rules.filterMap (·.suffixLength? host)).foldl max 1)

/-- The suffix with one label before it, if the host is long enough to have one. -/
def registrable? (host : Text) : Option Text :=
  let parts := labels host
  let n := suffixLength rules parts
  let suffix := Text.join ['.'] (parts.drop (parts.length - n))
  -- One byte of a label and a full stop are the least that can stand before the suffix.
  if suffix.isEmpty || Text.byteLength host < Text.byteLength suffix + 2 then none
  else some (Text.join ['.'] (parts.drop (parts.length - (n + 1))))

/-- The registrable domain of a host (`get_etld1`). A host without one, such as a numeric address or
a public suffix, stands for itself. -/
def registrableDomain (host : Text) : Text :=
  let name := normalize host
  if IpAddress.isAddress name then name else (registrable? rules name).getD name

end Rules

end ContentFilter.PublicSuffix
