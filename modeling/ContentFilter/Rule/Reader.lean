import ContentFilter.Cosmetic.Reader
import ContentFilter.Network.Reader
import ContentFilter.Rule.Basic

/-!
# Reading rules

A line of a filter list is trimmed of white space. It is then blank, a comment, a cosmetic rule
or a network rule: a cosmetic rule is a line with a cosmetic marker, whatever else it begins
with, except that a line that begins with `!` is always a comment.

In the engine: `is_comment` (`isComment`), `RuleFactory::create_rule` (`read`).
-/

set_option autoImplicit false

namespace ContentFilter.Rule

/-- Whether a trimmed line is a comment (`is_comment`). A line that begins with `#` or `[` is one
unless it has a cosmetic marker. -/
def isComment (line : Text) : Bool :=
  match line with
  | '!' :: _ => true
  | '#' :: _ => !Marker.occursIn line
  | '[' :: _ => !Marker.occursIn line
  | _ => false

/-- Read a line (`RuleFactory::create_rule`). Blank lines and comments hold no rule. Errors are
located in the text as given, with the white space around it. -/
def read (policy : DuplicatePolicy) (id : RuleId) (text : Text) : Reading (Option Rule) :=
  let line := (Fragment.whole text).trim Text.isWhite
  if line.text.isEmpty || isComment line.text then .ok none
  else if Marker.occursIn line.text then
    (CosmeticRule.parse policy id line).map fun r => some (.cosmetic r)
  else (NetworkRule.parse policy id line).map fun r => some (.network r)

end ContentFilter.Rule
