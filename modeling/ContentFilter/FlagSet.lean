/-!
# Sets of flags

Request types, rule options and kinds of rules are small fixed families, and a rule holds sets
of them. A family numbers its members from zero (`Flag`), and a set is the bit vector of the
numbers in it (`FlagSet`). Two sets with the same members are equal (`FlagSet.ext_contains`),
so sets are compared by `==` and reasoned about by membership.

In the engine: the bit sets `RequestType`, `NetworkRuleOption` and `RuleKinds`.
-/

set_option autoImplicit false

namespace ContentFilter

/-- A finite family whose members are numbered from zero. -/
class Flag (α : Type) where
  count : Nat
  number : α → Fin count
  member : Fin count → α
  /-- Every member has a number of its own. -/
  member_number : ∀ a, member (number a) = a
  /-- Every number is that of a member. -/
  number_member : ∀ i, number (member i) = i

/-- A set of members of a family. -/
@[ext] structure FlagSet (α : Type) [Flag α] where
  /-- The bit of a member's number tells whether it is in the set. -/
  mask : BitVec (Flag.count α)
deriving DecidableEq

namespace FlagSet

variable {α : Type} [Flag α]

instance : Inhabited (FlagSet α) := ⟨⟨0⟩⟩

/-- The set without members. -/
def empty : FlagSet α := ⟨0⟩

/-- The set of all members. -/
def full : FlagSet α := ⟨BitVec.allOnes _⟩

/-- The set of one member. -/
def single (a : α) : FlagSet α := ⟨BitVec.twoPow _ (Flag.number a).val⟩

/-- The members of either set. -/
def union (s t : FlagSet α) : FlagSet α := ⟨s.mask ||| t.mask⟩

/-- The set with one member more. -/
def insert (s : FlagSet α) (a : α) : FlagSet α := s.union (single a)

/-- The set of the listed members. -/
def ofList (members : List α) : FlagSet α := members.foldl insert empty

/-- Whether a member is in the set. -/
def contains (s : FlagSet α) (a : α) : Bool := s.mask.getLsbD (Flag.number a).val

/-- Whether the sets have a member in common. -/
def meets (s t : FlagSet α) : Bool := s.mask &&& t.mask != 0

/-- The members of the set in the order of their numbers. -/
def toList (s : FlagSet α) : List α :=
  ((List.finRange (Flag.count α)).filter fun i => s.mask.getLsbD i.val).map Flag.member

/-- How many members the set has. -/
def size (s : FlagSet α) : Nat := s.toList.length

/-- The set whose members are given by the bits of a number; bits beyond the family are
ignored. -/
def ofMask (n : Nat) : FlagSet α := ⟨BitVec.ofNat _ n⟩

/-- The number whose bits give the members. -/
def toMask (s : FlagSet α) : Nat := s.mask.toNat

/-! ## Membership -/

/-- Sets with the same members are equal. -/
theorem ext_contains {s t : FlagSet α} (h : ∀ a, s.contains a = t.contains a) : s = t := by
  apply FlagSet.ext
  apply BitVec.eq_of_getLsbD_eq
  intro i hi
  have := h (Flag.member ⟨i, hi⟩)
  simpa [contains, Flag.number_member] using this

@[simp] theorem contains_empty (a : α) : (empty : FlagSet α).contains a = false := by
  simp [empty, contains]

@[simp] theorem contains_full (a : α) : (full : FlagSet α).contains a = true := by
  simp [full, contains]

/-- The union has the members of both sets. -/
@[simp] theorem contains_union (s t : FlagSet α) (a : α) :
    (s.union t).contains a = (s.contains a || t.contains a) := by
  simp [union, contains]

/-- The order in which two sets are added does not matter. -/
theorem union_right_comm (s t u : FlagSet α) : (s.union t).union u = (s.union u).union t := by
  refine ext_contains fun a => ?_
  rw [contains_union, contains_union, contains_union, contains_union, Bool.or_right_comm]

/-- No two members of a family have the same number. -/
theorem number_injective {a b : α} (h : (Flag.number a).val = (Flag.number b).val) : a = b := by
  rw [← Flag.member_number a, ← Flag.member_number b, Fin.ext h]

theorem contains_single_self (a : α) : (single a).contains a = true := by
  simp [single, contains]

theorem contains_single_of_ne {a b : α} (h : a ≠ b) : (single a).contains b = false := by
  have : (Flag.number b).val ≠ (Flag.number a).val := fun e => h (number_injective e.symm)
  simp [single, contains, this]

theorem contains_single [DecidableEq α] (a b : α) : (single a).contains b = decide (a = b) := by
  by_cases h : a = b
  · rw [h, contains_single_self, decide_eq_true rfl]
  · rw [contains_single_of_ne h, decide_eq_false h]

end FlagSet

end ContentFilter
