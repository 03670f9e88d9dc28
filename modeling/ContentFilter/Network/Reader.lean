import ContentFilter.Network.Effect

/-!
# Reading network rules

A network rule is written `pattern$modifiers` or, as an exception, `@@pattern$modifiers`. The
modifier block begins after the last `$` that no backslash directly precedes. A pattern between
slashes is a regular expression, in which a `$` may stand for itself, and no block is looked for
in a body that begins and ends with a slash. The pattern may be empty only beside a domain
modifier. Errors in the block come first, then an empty pattern, then what a modifier's own value
is refused for.

In the engine: `parse_network_rule` (`parse`), `find_options_start` (`isBetweenSlashes` and
`Parts.ofBody`).
-/

set_option autoImplicit false

namespace ContentFilter.NetworkRule

/-- What an exception begins with. -/
def allowlistMark : Text := "@@".toList

/-- What opens the modifier block. -/
def blockOpening : Char := '$'

/-- Whether a text begins with a slash and ends with another. -/
def isBetweenSlashes (t : Text) : Bool :=
  match t with
  | '/' :: rest => rest.getLast? == some '/'
  | _ => false

/-- The parts of a network rule. -/
structure Parts where
  /-- Whether the rule makes an exception. -/
  allowlist : Bool
  pattern : Text
  /-- The inside of the modifier block, if there is one. -/
  block : Option Fragment
deriving DecidableEq, Repr, Inhabited

/-- Take what stands behind the mark apart (`find_options_start`). -/
def Parts.ofBody (allowlist : Bool) (body : Fragment) : Parts :=
  match if isBetweenSlashes body.text then none else body.splitLast? blockOpening with
  | some (pattern, block) => ⟨allowlist, pattern.text, some block⟩
  | none => ⟨allowlist, body.text, none⟩

/-- Take a network rule apart. -/
def Parts.ofFragment (rule : Fragment) : Parts :=
  match rule.strip? allowlistMark with
  | some body => .ofBody true body
  | none => .ofBody false rule

/-- The kind of rule that a rule's exception mark makes it. -/
def ruleKinds (allowlist : Bool) : RuleKinds := if allowlist then .allowing else .blocking

/-- The rule with what one modifier adds to it. -/
def apply (r : NetworkRule) (modifier : Modifier) : Reading NetworkRule :=
  (modifier.effect r.allowlist).map r.add

/-- The rule with what the modifiers add to it, one after the other. -/
def applyAll (r : NetworkRule) : List Modifier → Reading NetworkRule
  | [] => .ok r
  | modifier :: rest => do (← r.apply modifier).applyAll rest

/-- The rule without modifiers. -/
def bare (id : RuleId) (text pattern : Text) (allowlist : Bool) : NetworkRule :=
  { id, text, pattern, allowlist }

/-- Read a network rule (`parse_network_rule`). -/
def parse (policy : DuplicatePolicy) (id : RuleId) (rule : Fragment) : Reading NetworkRule := do
  let parts := Parts.ofFragment rule
  let modifiers ← match parts.block with
    | some block => ModifierMap.parse (ruleKinds parts.allowlist) policy block
    | none => .ok {}
  if parts.pattern.isEmpty && !modifiers.contains .domain then
    refuse .emptyPattern rule.span
  else
    (bare id rule.text parts.pattern parts.allowlist).applyAll modifiers.entries

end ContentFilter.NetworkRule
