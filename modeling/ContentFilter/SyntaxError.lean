import ContentFilter.Fragment

/-!
# Syntax errors

Every reader of rule text fails with a `SyntaxError`: what is wrong (`Cause`) and where
(`Span`). The wording of an error is a function of its cause alone (`Cause.message`).

In the engine: `SyntaxErrorKind` (`Cause`), `SyntaxError`, `SyntaxError::shifted`
(`SyntaxError.shift`), `SyntaxResult` (`Reading`).
-/

set_option autoImplicit false

namespace ContentFilter

/-- Every way in which rule text can be refused. -/
inductive Cause where
  /-- A value list has a place without a value. -/
  | emptyItem
  /-- An exception marker follows an exception marker. -/
  | multipleNegation
  /-- A separator follows an exception marker. -/
  | separatorAfterNegation
  /-- A blank follows an exception marker. -/
  | blankAfterNegation
  | separatorAtEnd
  | notCosmetic
  | emptyContent
  | unterminatedModifiers
  | emptyModifiers
  /-- The named modifier lacks its value. -/
  | modifierValueRequired (name : Text)
  /-- The named modifier has a value and takes none. -/
  | modifierValueForbidden (name : Text)
  | unknownModifier (name : Text)
  /-- The named modifier does not belong in rules of this kind. -/
  | modifierNotPermitted (name : Text)
  /-- The named modifier cannot be negated, or not together with a value. -/
  | negatedModifier (name : Text)
  /-- A modifier of the kind of the named one stands in the rule already. -/
  | duplicateModifier (name : Text)
  /-- A rule has both a domain list and a domain modifier. -/
  | domainModifierConflict
  | invalidScriptlet (call : Text)
  | missingScriptletName (call : Text)
  /-- A network rule has neither a pattern nor a domain modifier. -/
  | emptyPattern
deriving DecidableEq, Repr, Inhabited

namespace Cause

/-- The wording of an error. -/
def message : Cause → Text
  | emptyItem => "Empty value specified in the list".toList
  | multipleNegation =>
    "Exception marker cannot be followed by another exception marker".toList
  | separatorAfterNegation => "Exception marker cannot be followed by a separator".toList
  | blankAfterNegation => "Exception marker cannot be followed by whitespace".toList
  | separatorAtEnd => "Value list cannot end with a separator".toList
  | notCosmetic => "Not a cosmetic rule".toList
  | emptyContent => "Rule content is empty".toList
  | unterminatedModifiers => "Can't parse modifiers list".toList
  | emptyModifiers => "Modifiers list can't be empty".toList
  | modifierValueRequired _ => "Modifier must have assigned value".toList
  | modifierValueForbidden name =>
    "'".toList ++ name ++ "' modifier does not accept a value".toList
  | unknownModifier name => "'".toList ++ name ++ "' is not valid modifier".toList
  | modifierNotPermitted name =>
    "'".toList ++ name ++ "' modifier is not allowed in this rule".toList
  | negatedModifier name => "'".toList ++ name ++ "' modifier cannot be negated".toList
  | duplicateModifier name =>
    "'".toList ++ name ++ "' modifier is specified more than once".toList
  | domainModifierConflict =>
    "The $domain modifier is not allowed in a domain-specific rule".toList
  | invalidScriptlet call => "Invalid scriptlet ".toList ++ call
  | missingScriptletName call => "Scriptlet name is missing in ".toList ++ call
  | emptyPattern => "Network rule pattern is empty".toList

end Cause

/-- A located error. -/
structure SyntaxError where
  cause : Cause
  /-- Where it is wrong, in bytes of the text that the outermost reader was given. -/
  span : Span
deriving DecidableEq, Repr, Inhabited

namespace SyntaxError

/-- The wording of the error, which does not mention its place. -/
def message (e : SyntaxError) : Text := e.cause.message

/-- The error moved right by `base` bytes. -/
def shift (base : Nat) (e : SyntaxError) : SyntaxError := ⟨e.cause, e.span.shift base⟩

end SyntaxError

/-- What a reader answers. -/
abbrev Reading (α : Type) := Except SyntaxError α

/-- Refuse, pointing at `span`. -/
def refuse {α : Type} (cause : Cause) (span : Span) : Reading α := .error ⟨cause, span⟩

end ContentFilter
