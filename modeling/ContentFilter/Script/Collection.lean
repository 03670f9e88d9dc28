import ContentFilter.Script.Materializer
import ContentFilter.Storage.Basic
import Std.Data.HashSet

/-!
# Scripts of a page

The script rules that hold on a page are collected into generic and specific ones, each in the
order in which they are appended. A rule is collected once, and a rule whose script cannot be
made is left out.

In the engine: `ScriptEntry`, `CosmeticScriptsResult` (`ScriptCollection`),
`CosmeticScriptsResult::append` (`append`), and the loop of `cmd_scripts` (`ofStorage`).
-/

set_option autoImplicit false

namespace ContentFilter

/-- A collected rule with its script. -/
structure ScriptEntry where
  rule : CosmeticRule
  script : MaterializedScript
deriving DecidableEq, Inhabited

/-- The scripts collected for a page, together with what collecting them has led to. -/
structure ScriptCollection where
  /-- The rules that are confined to no domain. -/
  generic : Array ScriptEntry := #[]
  specific : Array ScriptEntry := #[]
  /-- The identities of the collected rules. -/
  seen : Std.HashSet RuleId := {}
  /-- The scripts kept from now on. -/
  cache : ScriptCache
  /-- The calls made of the resolver, in order. -/
  calls : Array ScriptletInvocation := #[]
deriving Inhabited

namespace ScriptCollection

/-- Begin to collect, with the scripts that are kept. -/
def start (cache : ScriptCache) : ScriptCollection := { cache }

/-- What is collected, generic rules first. -/
def entries (c : ScriptCollection) : List ScriptEntry := c.generic.toList ++ c.specific.toList

/-- Whether a rule with this identity is collected. -/
def contains (c : ScriptCollection) (id : RuleId) : Bool := c.seen.contains id

/-- How many rules are collected. -/
def length (c : ScriptCollection) : Nat := c.generic.size + c.specific.size

/-- The collected rules. -/
def rules (c : ScriptCollection) : List CosmeticRule := c.entries.map (·.rule)

/-- The collected scripts, in one variant. -/
def scripts (c : ScriptCollection) (verbose : Bool) : List Text :=
  c.entries.map fun e => if verbose then e.script.verbose else e.script.script

/-- Put an entry among the generic or the specific ones. -/
def add (c : ScriptCollection) (entry : ScriptEntry) : ScriptCollection :=
  let c := { c with seen := c.seen.insert entry.rule.id }
  if entry.rule.isGeneric then { c with generic := c.generic.push entry }
  else { c with specific := c.specific.push entry }

section

variable (c : ScriptCollection) (entry : ScriptEntry)

/-- A generic entry comes behind the generic ones. -/
theorem generic_add : (c.add entry).generic.toList =
    c.generic.toList ++ if entry.rule.isGeneric then [entry] else [] := by
  rw [add]
  cases entry.rule.isGeneric <;> simp

/-- A specific entry comes behind the specific ones. -/
theorem specific_add : (c.add entry).specific.toList =
    c.specific.toList ++ if entry.rule.isGeneric then [] else [entry] := by
  rw [add]
  cases entry.rule.isGeneric <;> simp

theorem contains_add (id : RuleId) :
    (c.add entry).contains id = (c.contains id || entry.rule.id == id) := by
  rw [add, Bool.or_comm]
  cases entry.rule.isGeneric <;> exact Std.HashSet.contains_insert

end

/-- The collection after the script of a rule was made. -/
def record (c : ScriptCollection) (made : Materialization) : ScriptCollection :=
  { c with cache := made.cache, calls := c.calls ++ made.calls.toArray }

/-- Collect a rule (`CosmeticScriptsResult::append`). -/
def append (m : Materializer) (c : ScriptCollection) (rule : CosmeticRule)
    (page : Option Page) : ScriptCollection :=
  if c.contains rule.id then c
  else match m.materialize c.cache rule page with
    | .ok made => (c.record made).add ⟨rule, made.script⟩
    | .error _ => c

/-- Whether the script of a rule is for pages of a domain. -/
def wants (domain : Text) (rule : CosmeticRule) : Bool :=
  rule.marker.isScript && !rule.isException && rule.appliesTo domain

/-- Collect the scripts of a storage for a page. -/
def ofStorage (m : Materializer) (cache : ScriptCache) (storage : Storage) (page : Page) :
    ScriptCollection :=
  (storage.cosmeticRules.filter (wants page.domain)).foldl (·.append m · (some page))
    (start cache)

end ScriptCollection

end ContentFilter
