import ContentFilter.Cosmetic.Rule
import ContentFilter.Script.Call
import ContentFilter.Web.Host
import Std.Data.HashMap

/-!
# Scripts of rules

A script rule holds its script, or it calls a scriptlet, whose code a resolver outside the
library supplies. Each script exists in two variants: the plain one, and a verbose one, which
for a scriptlet names the domain of the page. Both are made together, on first use, and kept in
a `ScriptCache` under the identity of the rule.

A kept scriptlet is used again for a page of the same domain and where no page is known;
otherwise both variants are made anew and replace it. A script that the rule holds itself does
not depend on the page.

The resolver is a function, and materialising a script reports the calls made of it, so that
what is asked of the resolver can be stated.

In the engine: `ScriptletInvocation`, `ScriptletResolver` (`Materializer.resolve`),
`MaterializedScript`, `ScriptCache`, `ScriptRequest` (`Page`),
`ScriptMaterializer::materialize_script` (`Materializer.materialize`), `raw_script` (the raw branch
of `Materializer.build`).
-/

set_option autoImplicit false

namespace ContentFilter

/-- The page for which scripts are collected. -/
structure Page where
  url : Text
  /-- The host of that address. -/
  domain : Text
deriving DecidableEq, Repr, Inhabited

/-- The page at an address; an address without a host is that of no page. -/
def Page.ofUrl? (url : Text) : Option Page :=
  match Url.host? url with
  | some host => if host.text.isEmpty then none else some ⟨url, host.text⟩
  | none => none

/-- What a resolver is told about a scriptlet. -/
structure ScriptletInvocation where
  name : Text
  args : List Text
  engine : Text
  version : Text
  /-- The rule that calls the scriptlet, as written. -/
  ruleText : Text
  /-- Whether the verbose variant is wanted. -/
  verbose : Bool
  /-- The domain that the verbose variant names. -/
  domain : Option Text
deriving DecidableEq, Repr, Inhabited

/-- The script of a rule, in its plain and in its verbose variant. -/
structure MaterializedScript where
  script : Text
  verbose : Text
  /-- The domain that the verbose variant names. -/
  domain : Option Text
deriving DecidableEq, Repr, Inhabited

/-- The scripts made so far, by rule. -/
structure ScriptCache where
  entries : Std.HashMap RuleId MaterializedScript := {}
deriving Inhabited

namespace ScriptCache

/-- The script kept for a rule. -/
def get? (c : ScriptCache) (id : RuleId) : Option MaterializedScript := c.entries[id]?

/-- Keep a script for a rule, in the place of the one that is kept. -/
def insert (c : ScriptCache) (id : RuleId) (script : MaterializedScript) : ScriptCache :=
  ⟨c.entries.insert id script⟩

/-- For how many rules a script is kept. -/
def size (c : ScriptCache) : Nat := c.entries.size

/-- Whether no script is kept. -/
def isEmpty (c : ScriptCache) : Bool := c.size == 0

/-- Keep no script any longer. -/
def clear (_ : ScriptCache) : ScriptCache := {}

theorem get?_clear (c : ScriptCache) (id : RuleId) : c.clear.get? id = none := by
  simp [get?, clear]

/-- What was kept last under an identity is what is found there. -/
theorem get?_insert (c : ScriptCache) (id k : RuleId) (script : MaterializedScript) :
    (c.insert id script).get? k = if id = k then some script else c.get? k := by
  simp [get?, insert, Std.HashMap.getElem?_insert]

end ScriptCache

/-- What it takes to make the scripts of rules. -/
structure Materializer where
  /-- Supplies the code of scriptlets. -/
  resolve : ScriptletInvocation → Text
  engine : Text
  version : Text

/-- A script together with what making it has led to. -/
structure Materialization where
  script : MaterializedScript
  /-- The scripts kept from now on. -/
  cache : ScriptCache
  /-- The calls made of the resolver, in order. -/
  calls : List ScriptletInvocation := []

namespace Materializer

/-- What the resolver is told about a call that a rule makes. -/
def invocation (m : Materializer) (rule : CosmeticRule) (call : ScriptletCall) (verbose : Bool)
    (domain : Option Text) : ScriptletInvocation :=
  ⟨call.name, call.args, m.engine, m.version, rule.text, verbose, domain⟩

/-- The kept script of a rule, if it serves again: that of a scriptlet has to be for the same
domain, unless there is no page. -/
def kept? (cache : ScriptCache) (rule : CosmeticRule) (domain : Option Text) :
    Option MaterializedScript :=
  match rule.call? with
  | none => cache.get? rule.id
  | some _ =>
    -- Without a page any domain will do: nothing better could be made.
    (cache.get? rule.id).filter fun script => domain.isNone || script.domain == domain

/-- Make the script of a scriptlet call, the plain variant first. -/
def resolveCall (m : Materializer) (rule : CosmeticRule) (domain : Option Text)
    (call : ScriptletCall) : MaterializedScript × List ScriptletInvocation :=
  let plain := m.invocation rule call false none
  let verbose := m.invocation rule call true domain
  (⟨m.resolve plain, m.resolve verbose, domain⟩, [plain, verbose])

/-- Make the script of a rule from what the rule says, and from nothing that is kept. -/
def build (m : Materializer) (rule : CosmeticRule) (domain : Option Text) :
    Reading (MaterializedScript × List ScriptletInvocation) :=
  match rule.call? with
  | none => .ok (⟨rule.content, rule.content, none⟩, [])
  | some call => (ScriptletCall.parse (.whole call)).map (m.resolveCall rule domain)

/-- The script of a rule, made if need be (`ScriptMaterializer::materialize_script`). -/
def materialize (m : Materializer) (cache : ScriptCache) (rule : CosmeticRule)
    (page : Option Page) : Reading Materialization :=
  let domain := page.map (·.domain)
  match kept? cache rule domain with
  | some script => .ok { script, cache }
  | none => (m.build rule domain).map fun (script, calls) =>
    { script, cache := cache.insert rule.id script, calls }

end Materializer

end ContentFilter
