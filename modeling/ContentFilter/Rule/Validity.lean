import ContentFilter.Config
import ContentFilter.Rule.Reader

/-!
# Validity of single rules

A rule is judged before it is put into a list: it is too short, or a comment, or it can be read,
or it cannot and the reason is the wording of the error.

In the engine: `RuleValidator::validate_with` (`objection?`), `ValidationResult` (what it answers).
-/

set_option autoImplicit false

namespace ContentFilter.Rule

/-- Judge a rule: `none` for a valid one, otherwise the reason why it is not
(`RuleValidator::validate_with`). -/
def objection? (config : ParserConfig) (text : Text) : Option Text :=
  let rule := Text.trim Text.isWhite text
  if Text.byteLength rule < config.minRuleLength then
    some ("Rule is too short: ".toList ++ rule)
  else if isComment rule then none
  else match read config.duplicates ⟨0, 0⟩ rule with
    | .ok _ => none
    | .error e => some e.message

/-- Whether a rule is valid. -/
def isValid (config : ParserConfig) (text : Text) : Bool := (objection? config text).isNone

end ContentFilter.Rule
