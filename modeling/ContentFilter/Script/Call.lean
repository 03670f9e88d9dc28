import ContentFilter.SyntaxError

/-!
# Scriptlet calls

A rule may call a scriptlet by name instead of holding a script: `('name', "argument", …)`.
Between the quoted parts only spaces, commas and brackets may stand, in any order, and the call
ends with a closing bracket. A quoted part ends at the next occurrence of its own quote that no
backslash directly precedes; what it holds is kept as it was written. `()` calls no scriptlet
in particular and stands for all of them.

In the engine: `ScriptletSpec` (`ScriptletCall`), `is_allow_all` (`isForAll`), `step` (`scan`),
`parse_scriptlet_call` (`parse`).
-/

set_option autoImplicit false

namespace ContentFilter

/-- A scriptlet call. -/
structure ScriptletCall where
  name : Text := []
  args : List Text := []
deriving DecidableEq, Repr, Inhabited

namespace ScriptletCall

/-- Whether the call stands for every scriptlet. -/
def isForAll (c : ScriptletCall) : Bool := c.name.isEmpty && c.args.isEmpty

/-- The characters that may stand between the quoted parts of a call. -/
def isFiller (c : Char) : Bool := c == ' ' || c == '(' || c == ',' || c == ')'

/-- The two quotes. -/
def isQuote (c : Char) : Bool := c == '\'' || c == '"'

/-- Where the scan of a call stands. -/
inductive State where
  /-- Between quoted parts. -/
  | between
  /-- In a part that `quote` opened, after `previous`, with `body` scanned so far, last character
  first. -/
  | inside (quote previous : Char) (body : Text)
deriving DecidableEq, Repr

/-- Why a scan fails. -/
inductive Failure where
  /-- The text ends before the call does. -/
  | unclosed
  /-- A character stands where none of its kind may; `offset` is where. -/
  | unexpected (offset : Nat) (c : Char)
deriving DecidableEq, Repr

/-- Scan the rest of a call that starts at `offset`; `parts` holds the quoted parts so far, last one
first (`step`). -/
def scan : State → List Text → Nat → Text → Except Failure (List Text)
  | _, _, _, [] => .error .unclosed
  | .between, parts, offset, c :: rest =>
    if c = ')' ∧ rest = [] then .ok parts.reverse
    else if isQuote c then scan (.inside c c []) parts (offset + c.utf8Size) rest
    else if isFiller c then scan .between parts (offset + c.utf8Size) rest
    else .error (.unexpected offset c)
  | .inside quote previous body, parts, offset, c :: rest =>
    if c = quote ∧ previous ≠ '\\' then
      scan .between (body.reverse :: parts) (offset + c.utf8Size) rest
    else scan (.inside quote c (c :: body)) parts (offset + c.utf8Size) rest

/-- The place at which a failed scan is reported. -/
def Failure.span (call : Fragment) : Failure → Span
  | unclosed => call.span
  | unexpected offset c => ⟨offset, offset + c.utf8Size⟩

/-- Read a scriptlet call (`parse_scriptlet_call`). -/
def parse (call : Fragment) : Reading ScriptletCall :=
  if call.text = ['(', ')'] then .ok {}
  else match scan .between [] call.offset call.text with
    | .error failure => refuse (.invalidScriptlet call.text) (failure.span call)
    | .ok [] => refuse (.missingScriptletName call.text) call.span
    | .ok (name :: args) =>
      if name.isEmpty then refuse (.missingScriptletName call.text) call.span
      else .ok ⟨name, args⟩

end ScriptletCall

end ContentFilter
