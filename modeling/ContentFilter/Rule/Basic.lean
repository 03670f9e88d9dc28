import ContentFilter.Cosmetic.Rule
import ContentFilter.Network.Rule

/-!
# Rules

A filter list holds rules of two kinds, network rules and cosmetic rules, under identities of
one kind.

In the engine: `Rule` and its accessors.
-/

set_option autoImplicit false

namespace ContentFilter

/-- A rule of a filter list. -/
inductive Rule where
  | network (rule : NetworkRule)
  | cosmetic (rule : CosmeticRule)
deriving DecidableEq, Inhabited

namespace Rule

/-- The identity of the rule. -/
def id : Rule → RuleId
  | network r => r.id
  | cosmetic r => r.id

/-- The key of the rule in its list. -/
def key (r : Rule) : Nat := r.id.key

/-- The rule as written. -/
def text : Rule → Text
  | network r => r.text
  | cosmetic r => r.text

/-- Whether the rule makes an exception. -/
def isException : Rule → Bool
  | network r => r.allowlist
  | cosmetic r => r.isException

/-- The rule as a network rule. -/
def network? : Rule → Option NetworkRule
  | network r => some r
  | cosmetic _ => none

/-- The rule as a cosmetic rule. -/
def cosmetic? : Rule → Option CosmeticRule
  | network _ => none
  | cosmetic r => some r

/-- Whether `domain` is permitted by name. -/
def permits : Rule → Text → Bool
  | network r => r.permits
  | cosmetic r => r.permits

end Rule

end ContentFilter
