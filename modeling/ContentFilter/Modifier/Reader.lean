import ContentFilter.Modifier.Map

/-!
# Reading modifiers

A modifier block is a comma-separated list of tokens `name`, `~name` or `name=value`. It is cut
at the commas that no backslash directly precedes; the pieces are trimmed of white space, and
blank pieces are skipped. Each token is checked against the registry on its own, in order, so
the first token at fault is the one reported; a duplicate counts as a fault of the later token.

In the engine: `parse_modifiers` (`ModifierMap.parse`), `parse_token` (`Modifier.read`).
-/

set_option autoImplicit false

namespace ContentFilter

namespace Modifier

/-- The sign that negates a modifier. -/
def negationMarker : Char := '~'

/-- The parts of a token, before the registry is asked. -/
structure Token where
  /-- Whether it begins with the negation sign. -/
  negated : Bool
  /-- The text up to the first equals sign, without white space at its end. -/
  name : Text
  /-- The text after the first equals sign, if there is one. -/
  value : Option Fragment
deriving DecidableEq, Repr, Inhabited

/-- Take a token apart. -/
def Token.ofFragment (token : Fragment) : Token :=
  let (negated, body) := match token.strip? [negationMarker] with
    | some body => (true, body)
    | none => (false, token)
  let before := body.text.takeWhile (· != '=')
  let value := match body.text.dropWhile (· != '=') with
    | [] => none
    | equals :: rest => some (body.after (before ++ [equals]) rest)
  ⟨negated, Text.dropTailWhile Text.isWhite before, value⟩

/-- What the registry objects to in a token of a kind, if anything. -/
def objection? (kind : ModifierKind) (ruleKinds : RuleKinds) (token : Token) : Option Cause :=
  let spec := kind.spec
  if !spec.ruleKinds.meets ruleKinds then some (.modifierNotPermitted token.name)
  else if token.negated && (!spec.negatable || token.value.isSome) then
    some (.negatedModifier token.name)
  else match spec.value, token.value with
    | .required, none => some (.modifierValueRequired token.name)
    | .required, some value =>
      if value.text.isEmpty then some (.modifierValueRequired token.name) else none
    | .forbidden, some _ => some (.modifierValueForbidden token.name)
    | _, _ => none

/-- Read one token for a rule of one of the kinds `ruleKinds` (`parse_token`). -/
def read (ruleKinds : RuleKinds) (token : Fragment) : Reading Modifier :=
  let parts := Token.ofFragment token
  match ModifierKind.named? parts.name with
  | none => refuse (.unknownModifier parts.name) token.span
  | some kind =>
    match objection? kind ruleKinds parts with
    | some cause => refuse cause token.span
    | none => .ok ⟨kind, parts.name, parts.value, parts.negated, token.span⟩

end Modifier

namespace ModifierMap

/-- The tokens of a modifier block. -/
def tokens (block : Fragment) : List Fragment :=
  ((block.cut ',').map (·.trim Text.isWhite)).filter (!·.text.isEmpty)

/-- Add the modifiers of the tokens to a map, one after the other. -/
def readTokens (ruleKinds : RuleKinds) (policy : DuplicatePolicy) (m : ModifierMap) :
    List Fragment → Reading ModifierMap
  | [] => .ok m
  | token :: rest => do
    let modifier ← Modifier.read ruleKinds token
    let extended ← m.insert policy modifier
    readTokens ruleKinds policy extended rest

/-- Read a modifier block for a rule of one of the kinds `ruleKinds` (`parse_modifiers`). -/
def parse (ruleKinds : RuleKinds) (policy : DuplicatePolicy) (block : Fragment) :
    Reading ModifierMap :=
  readTokens ruleKinds policy {} (tokens block)

end ModifierMap

end ContentFilter
