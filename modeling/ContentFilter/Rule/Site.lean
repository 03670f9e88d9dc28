import ContentFilter.Rule.Reader
import ContentFilter.Web.Host
import ContentFilter.Web.PublicSuffix

/-!
# Rules of a site

Which rules are about a site can be told from their text: those whose permitted domains cover
it. Text that holds no rule is about no site.

In the engine: `is_rule_for_domain` (`isForDomain`), `is_rule_for_url` (`isForUrl`).
-/

set_option autoImplicit false

namespace ContentFilter.Rule

/-- Whether a rule, given as text, permits a domain by name (`is_rule_for_domain`). -/
def isForDomain (text domain : Text) : Bool :=
  match read .lastWins ⟨0, 0⟩ text with
  | .ok (some rule) => rule.permits domain
  | _ => false

/-- Whether a rule, given as text, permits the registrable domain of an address by name, where
`suffixes` are the rules about public suffixes (`is_rule_for_url`). -/
def isForUrl (suffixes : List PublicSuffix.SuffixRule) (text url : Text) : Bool :=
  match Url.host? url with
  | some host =>
    if host.text.isEmpty then false
    else isForDomain text (PublicSuffix.registrableDomain suffixes host.text)
  | none => false

end ContentFilter.Rule
