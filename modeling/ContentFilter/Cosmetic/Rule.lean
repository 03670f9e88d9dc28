import ContentFilter.Cosmetic.Marker
import ContentFilter.Rule.Domain
import ContentFilter.Rule.Identity
import ContentFilter.ValueList

/-!
# Cosmetic rules

A cosmetic rule changes a page: it hides elements, applies styles, runs a script or edits the
source, on the domains of its scope, or makes an exception from that. A rule without permitted
domains is generic: it holds on every domain it is not kept from.

In the engine: `CosmeticRule`, `SCRIPTLET_MASK` (`scriptletMark`), `scriptlet_call` (`call?`),
`matches_domain` (`appliesTo`), `matches_permitted_domains` (`permits`).
-/

set_option autoImplicit false

namespace ContentFilter

/-- A cosmetic rule. -/
structure CosmeticRule where
  id : RuleId
  /-- The rule as written. -/
  text : Text
  marker : Marker
  /-- What follows the marker. -/
  content : Text
  domains : Scope := {}
  /-- The path that pages must have. -/
  path : Option Text := none
  /-- The address that pages must have. -/
  url : Option Text := none
deriving DecidableEq, Repr, Inhabited

namespace CosmeticRule

/-- What the content of a script rule begins with if it is a scriptlet call. -/
def scriptletMark : Text := "//scriptlet".toList

/-- Whether the rule makes an exception. -/
def isException (r : CosmeticRule) : Bool := r.marker.exception

/-- Whether the rule is confined to no domain. -/
def isGeneric (r : CosmeticRule) : Bool := r.domains.permitted.isEmpty

/-- The scriptlet call of a content under a marker, if it is one: what follows the mark. -/
def callIn? (marker : Marker) (content : Fragment) : Option Fragment :=
  if marker.isScript then content.strip? scriptletMark else none

/-- The scriptlet call of the rule, if it makes one (`scriptlet_call`). -/
def call? (r : CosmeticRule) : Option Text :=
  (callIn? r.marker (.whole r.content)).map (·.text)

/-- Whether the rule calls a scriptlet. -/
def isScriptlet (r : CosmeticRule) : Bool := r.call?.isSome

/-- Whether `domain` is permitted by name. -/
def permits (r : CosmeticRule) (domain : Text) : Bool :=
  Domain.coveredByAny r.domains.permitted domain

/-- Whether the rule holds on pages of `domain` (`matches_domain`). -/
def appliesTo (r : CosmeticRule) (domain : Text) : Bool :=
  !Domain.coveredByAny r.domains.restricted domain && (r.isGeneric || r.permits domain)

end CosmeticRule

end ContentFilter
