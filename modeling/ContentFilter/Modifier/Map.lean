import ContentFilter.Modifier.Kind
import ContentFilter.SyntaxError

/-!
# Modifiers of a rule

A rule has at most one modifier of each kind. What becomes of a second one is a matter of
configuration (`DuplicatePolicy`): it takes the place of the first, or the rule is refused.

In the engine: `DuplicateModifierPolicy` (`DuplicatePolicy`), `Modifier`, `ModifierMap`,
`ModifierMap::insert`.
-/

set_option autoImplicit false

namespace ContentFilter

/-- What becomes of a modifier whose kind stands in the rule already. -/
inductive DuplicatePolicy where
  /-- The later one replaces the earlier one. -/
  | lastWins
  | reject
deriving DecidableEq, Repr, Inhabited

/-- One modifier as it stands in a rule. -/
structure Modifier where
  /-- The kind that its name names. -/
  kind : ModifierKind
  /-- The name as written. -/
  name : Text
  /-- The value as written, if there is one. -/
  value : Option Fragment
  negated : Bool
  /-- Where it stands, with its negation and its value. -/
  span : Span
deriving DecidableEq, Repr, Inhabited

/-- The modifier moved right by `base` bytes. -/
def Modifier.shift (base : Nat) (m : Modifier) : Modifier :=
  { m with value := m.value.map (·.shift base), span := m.span.shift base }

/-- The modifiers of a rule, in the order in which their kinds first occur. -/
structure ModifierMap where
  entries : List Modifier := []
deriving DecidableEq, Repr, Inhabited

namespace ModifierMap

/-- The modifier of a kind. -/
def get? (m : ModifierMap) (kind : ModifierKind) : Option Modifier :=
  m.entries.find? (·.kind == kind)

/-- The value of the modifier of a kind. -/
def value? (m : ModifierMap) (kind : ModifierKind) : Option Text :=
  (m.get? kind).bind fun e => e.value.map (·.text)

/-- Whether there is a modifier of a kind. -/
def contains (m : ModifierMap) (kind : ModifierKind) : Bool := (m.get? kind).isSome

/-- The map with one modifier more, or with that modifier in the place of the one of its
kind. -/
def put (m : ModifierMap) (modifier : Modifier) : ModifierMap :=
  if m.contains modifier.kind then
    ⟨m.entries.map fun e => if e.kind = modifier.kind then modifier else e⟩
  else ⟨m.entries ++ [modifier]⟩

/-- Add a modifier, subject to the policy on duplicates (`ModifierMap::insert`). -/
def insert (policy : DuplicatePolicy) (m : ModifierMap) (modifier : Modifier) :
    Reading ModifierMap :=
  if policy = .reject ∧ m.contains modifier.kind then
    refuse (.duplicateModifier modifier.name) modifier.span
  else .ok (m.put modifier)

end ModifierMap

end ContentFilter
