import ContentFilter.Cosmetic.PageScope
import ContentFilter.Cosmetic.Rule
import ContentFilter.Script.Call

/-!
# Reading cosmetic rules

A cosmetic rule is split at its first marker. The content is trimmed of white space and must
not be empty; the text before the marker is the page scope. A scriptlet call is read when the
rule is, so that a rule that is accepted can be carried out.

In the engine: `MarkerSplit` (`Parts`), `parse_rule_text_by_marker` (`Parts.ofFragment`),
`parse_cosmetic_rule` (`parse`).
-/

set_option autoImplicit false

namespace ContentFilter.CosmeticRule

/-- A rule split at its marker. -/
structure Parts where
  /-- What stands before the marker. -/
  pattern : Fragment
  marker : Marker
  /-- What follows the marker, trimmed. -/
  content : Fragment
deriving DecidableEq, Repr, Inhabited

/-- Split a rule at its first marker (`parse_rule_text_by_marker`). -/
def Parts.ofFragment (rule : Fragment) : Reading Parts :=
  match Marker.split? rule.text with
  | none => refuse .notCosmetic rule.span
  | some ⟨before, marker, rest⟩ =>
    let following := rule.after (before ++ marker.text) rest
    let content := following.trim Text.isWhite
    if content.text.isEmpty then refuse .emptyContent following.span
    else .ok ⟨⟨rule.offset, before⟩, marker, content⟩

/-- Read the scriptlet call in a content, if there is one, for its errors. -/
def checkCall (marker : Marker) (content : Fragment) : Reading Unit :=
  match callIn? marker content with
  | some call => (ScriptletCall.parse call).map fun _ => ()
  | none => .ok ()

/-- Read a cosmetic rule (`parse_cosmetic_rule`). -/
def parse (policy : DuplicatePolicy) (id : RuleId) (rule : Fragment) : Reading CosmeticRule := do
  let parts ← Parts.ofFragment rule
  let scope ← PageScope.parse policy parts.pattern
  checkCall parts.marker parts.content
  return {
    id
    text := rule.text
    marker := parts.marker
    content := parts.content.text
    domains := scope.domains
    path := scope.path
    url := scope.url }

end ContentFilter.CosmeticRule
