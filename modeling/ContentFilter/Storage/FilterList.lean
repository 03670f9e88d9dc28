import ContentFilter.Rule.Basic
import Std.Data.HashMap

/-!
# Filter lists

A filter list holds rules under keys. Looking a rule up goes by key; enumerating the rules goes
in the order in which their keys were first used. A rule with a key that is in use takes the
place of the rule before it.

In the engine: `ListCache` (`RuleCache`), `FilterList`, `FilterList::insert`.
-/

set_option autoImplicit false

namespace ContentFilter

/-- Rules by key. -/
structure RuleCache where
  rules : Std.HashMap Nat Rule := {}
deriving Inhabited

namespace RuleCache

/-- The rule under a key. -/
def get? (c : RuleCache) (key : Nat) : Option Rule := c.rules[key]?

/-- Put a rule under a key, in the place of the rule that is there. -/
def set (c : RuleCache) (key : Nat) (rule : Rule) : RuleCache := ⟨c.rules.insert key rule⟩

/-- How many keys are in use. -/
def size (c : RuleCache) : Nat := c.rules.size

/-- What was put in last under a key is what is found there. -/
theorem get?_set (c : RuleCache) (key k : Nat) (rule : Rule) :
    (c.set key rule).get? k = if key = k then some rule else c.get? k := by
  simp [get?, set, Std.HashMap.getElem?_insert]

/-- The number of keys grows if the key was not in use. -/
theorem size_set (c : RuleCache) (key : Nat) (rule : Rule) :
    (c.set key rule).size = if (c.get? key).isSome then c.size else c.size + 1 := by
  simp [get?, set, size, Std.HashMap.size_insert]

end RuleCache

/-- A filter list. -/
structure FilterList where
  id : Nat
  /-- The rules, in the order in which their keys were first used. -/
  arena : Array Rule := #[]
  /-- The same rules by key. -/
  cache : RuleCache := {}
deriving Inhabited

namespace FilterList

/-- Put a rule in the place of the first one with its key, if there is one. -/
def replaceFirst (rules : Array Rule) (rule : Rule) : Array Rule :=
  match rules.findIdx? (·.key == rule.key) with
  | some i => rules.setIfInBounds i rule
  | none => rules

/-- Put a rule under its own key (`FilterList::insert`). -/
def insert (l : FilterList) (rule : Rule) : FilterList where
  id := l.id
  arena :=
    match l.cache.get? rule.key with
    | some _ => replaceFirst l.arena rule
    | none => l.arena.push rule
  cache := l.cache.set rule.key rule

/-- The rule under a key. -/
def get? (l : FilterList) (key : Nat) : Option Rule := l.cache.get? key

/-- How many rules the list has. -/
def length (l : FilterList) : Nat := l.cache.size

/-- Whether the list has no rule. -/
def isEmpty (l : FilterList) : Bool := l.arena.isEmpty

/-- The rules in the order in which their keys were first used. -/
def rules (l : FilterList) : List Rule := l.arena.toList

@[simp] theorem id_insert (l : FilterList) (rule : Rule) : (l.insert rule).id = l.id := rfl

/-- The rule that was put in is found under its key, and the others under theirs. -/
theorem get?_insert (l : FilterList) (rule : Rule) (k : Nat) :
    (l.insert rule).get? k = if rule.key = k then some rule else l.get? k :=
  RuleCache.get?_set ..

/-- A rule takes the place of another one, and no other rule moves. -/
theorem toList_replaceFirst {rules : Array Rule} {before after : List Rule} {old rule : Rule}
    (h : rules.toList = before ++ old :: after) (hbefore : ∀ r ∈ before, r.key ≠ rule.key)
    (hold : old.key = rule.key) :
    (replaceFirst rules rule).toList = before ++ rule :: after := by
  obtain rfl : rules = (before ++ old :: after).toArray := Array.toList_inj.mp h
  have hindex : (before ++ old :: after).toArray.findIdx? (·.key == rule.key) =
      some before.length := by
    have hnone : before.findIdx? (·.key == rule.key) = none := by simpa using hbefore
    rw [List.findIdx?_toArray, List.findIdx?_append, hnone, List.findIdx?_cons]
    simp [hold]
  rw [replaceFirst, hindex, Array.toList_setIfInBounds, List.set_append_right _ _ (Nat.le_refl _),
    Nat.sub_self, List.set_cons_zero]

end FilterList

end ContentFilter
