import ContentFilter.Text.Bytes

/-!
# Domains and their subdomains

A rule for `example.org` covers `example.org` and everything below it. Names are compared
without regard to the case of ASCII letters.

In the engine: `is_domain_or_subdomain` (`covers?`), `is_domain_or_subdomain_of_any`
(`coveredByAny`).
-/

set_option autoImplicit false

namespace ContentFilter.Domain

/-- Whether `domain` is `parent` or stands below it (`is_domain_or_subdomain`). The last bytes of
`domain` are compared with `parent`, and the byte before them with a dot. There is no answer if
those bytes are not a text or that byte is not there. Nothing stands below the empty name. -/
def covers? (parent domain : Text) : Option Bool :=
  if parent.isEmpty || Text.byteLength domain < Text.byteLength parent then some false
  else
    let split := Text.byteLength domain - Text.byteLength parent
    if !Text.isBoundary split (Text.bytes domain) then some false
    else
      (Text.slice? split (Text.byteLength domain) domain).bind fun tail =>
        if !Text.eqIgnoringCase tail parent then some false
        else if split = 0 then some true
        else (Text.bytes domain)[split - 1]?.map (· == '.'.toUInt8)

/-- Whether `domain` is `parent` or stands below it. -/
def covers (parent domain : Text) : Bool := (covers? parent domain).getD false

/-- Whether `domain` is one of the parents or stands below one of them. -/
def coveredByAny (parents : List Text) (domain : Text) : Bool := parents.any (covers · domain)

end ContentFilter.Domain
