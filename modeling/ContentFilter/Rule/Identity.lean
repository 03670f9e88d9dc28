import ContentFilter.Text.Basic

/-!
# Identity of rules

A rule is known by the filter list it stands in and by its key in that list. What is derived
from a rule is kept under this identity and not in the rule.

In the engine: `RuleId`.
-/

set_option autoImplicit false

namespace ContentFilter

/-- The identity of a rule. -/
structure RuleId where
  list : Nat
  key : Nat
deriving DecidableEq, Hashable, Repr, Inhabited

/-- An identity as it is printed: `list:key`. -/
def RuleId.toText (id : RuleId) : Text := Text.ofNat id.list ++ ":".toList ++ Text.ofNat id.key

end ContentFilter
