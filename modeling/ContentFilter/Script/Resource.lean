import ContentFilter.Json.Value
import ContentFilter.Script.Materializer

/-!
# Resources

Where no browser supplies them, redirections lead to files in a directory of surrogates, and
the code of a scriptlet is a snippet that calls the scriptlet by name. The snippet carries the
name, the arguments and, in its verbose variant, the origin of the call as JSON literals.

In the engine: `redirect_resource_path` (`surrogatePath`), `create_redirect_url` (`redirectUrl?`),
`scriptlet_code` (`snippet`).
-/

set_option autoImplicit false

namespace ContentFilter.Resource

/-- Whether `piece` occurs in a text. -/
def occurs (piece : Text) : Text → Bool
  | [] => piece.isEmpty
  | c :: rest => piece.isPrefixOf (c :: rest) || occurs piece rest

/-- The path of the surrogate that a redirection names (`redirect_resource_path`). A name that is an
address or an absolute path already stands for itself. -/
def surrogatePath (name : Text) : Text :=
  if "/".toList.isPrefixOf name || "data:".toList.isPrefixOf name || occurs "://".toList name then
    name
  else if name = "noopjs".toList then "/redirects/noop.js".toList
  else if "redirects/".toList.isPrefixOf name then "/".toList ++ name
  else "/redirects/".toList ++ name

/-- The address to which a redirection leads; a redirection without a name leads nowhere
(`create_redirect_url`). -/
def redirectUrl? (value : Option Text) (_requestUrl : Text) : Option Text :=
  (value.filter (!·.isEmpty)).map surrogatePath

/-- The origin of a call. -/
def origin (i : ScriptletInvocation) : Json :=
  .obj [
    ("domainName".toList, .ofOption i.domain),
    ("engine".toList, .str i.engine),
    ("ruleText".toList, .str i.ruleText),
    ("version".toList, .str i.version)]

section Printer

variable (print : Json → Text)

/-- The statement that calls a scriptlet and reports its failure, with values printed by
`print`. -/
def callStatement (i : ScriptletInvocation) : Text :=
  "try \x7b window.scriptlets[".toList ++ print (.str i.name) ++ "].apply(null, ".toList
    ++ print (.arr (i.args.map .str)) ++ "); \x7d catch (e) \x7b console.error(e); \x7d".toList

/-- The code of a scriptlet call, with values printed by `print`. -/
def snippetWith (i : ScriptletInvocation) : Text :=
  let report := if i.verbose then
      "console.log('[sieve] scriptlet', ".toList ++ print (origin i) ++ "); ".toList
    else []
  "(function () \x7b ".toList ++ report ++ callStatement print i ++ " \x7d)();".toList

end Printer

/-- The code of a scriptlet call (`scriptlet_code`). -/
def snippet (i : ScriptletInvocation) : Text := snippetWith Json.compact i

end ContentFilter.Resource
