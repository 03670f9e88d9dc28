import ContentFilter.Storage.FilterList

/-!
# Rule storage

A storage holds filter lists by identity and enumerates them in the order of their identities.
It is a value: a reload builds a new storage, and whoever holds the old one keeps it.

In the engine: `RuleStorage` (`Storage`), `add_list` (`add`), `retrieve_rule` (`rule?`).
-/

set_option autoImplicit false

namespace ContentFilter

/-- Put a list into lists that are sorted by identity, in the place of the one with the same
identity. -/
def FilterList.insertSorted (list : FilterList) : List FilterList → List FilterList
  | [] => [list]
  | l :: rest =>
    if list.id < l.id then list :: l :: rest
    else if list.id = l.id then list :: rest
    else l :: insertSorted list rest

/-- The filter lists in force. -/
structure Storage where
  /-- The lists, sorted by identity. -/
  lists : List FilterList := []
deriving Inhabited

namespace Storage

/-- Put a list into the storage, in the place of the one with the same identity
(`RuleStorage::add_list`). -/
def add (s : Storage) (list : FilterList) : Storage := ⟨list.insertSorted s.lists⟩

/-- The list with an identity. -/
def list? (s : Storage) (id : Nat) : Option FilterList := s.lists.find? (·.id == id)

/-- The rule with a key in a list. -/
def rule? (s : Storage) (id key : Nat) : Option Rule := (s.list? id).bind (·.get? key)

/-- The network rule with a key in a list. -/
def networkRule? (s : Storage) (id key : Nat) : Option NetworkRule :=
  (s.rule? id key).bind (·.network?)

/-- The cosmetic rule with a key in a list. -/
def cosmeticRule? (s : Storage) (id key : Nat) : Option CosmeticRule :=
  (s.rule? id key).bind (·.cosmetic?)

/-- How many rules the storage has. -/
def rulesCount (s : Storage) : Nat := s.lists.foldr (fun l n => l.length + n) 0

/-- The rules, list by list. -/
def rules (s : Storage) : List Rule := s.lists.flatMap (·.rules)

/-- The network rules, list by list. -/
def networkRules (s : Storage) : List NetworkRule := s.rules.filterMap (·.network?)

/-- The cosmetic rules, list by list. -/
def cosmeticRules (s : Storage) : List CosmeticRule := s.rules.filterMap (·.cosmetic?)

end Storage

end ContentFilter
