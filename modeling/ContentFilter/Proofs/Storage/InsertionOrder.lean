import ContentFilter.Proofs.Storage.FilterList
import Mathlib.Data.List.Forall2
import Mathlib.Data.List.Induction

/-!
# A filter list is an ordered map

Whatever rules are put into a new list, and however their keys repeat, the list holds under each key
the rule that came last with it, and enumerates its rules in the order in which their keys came
first (`isOrderedMapOf_foldl_insert`).

`Represents` relates a list to the rules put into it so far. One more rule keeps it, because a key
that is in use stays where it is and a new one comes last, which is how the keys without repetition
grow too. A list looks rules up and counts them on one of its sides, and enumerates them on the
other one; that these never come apart is `WellFormed`, which is part of what is kept.
-/

set_option autoImplicit false

namespace ContentFilter.FilterList

/-! ## What was put in -/

/-- Of the rules that were put in, the last one with a key. -/
def IsLast (inserted : List Rule) (k : Nat) (rule : Rule) : Prop :=
  ∃ before after, inserted = before ++ rule :: after ∧ rule.key = k ∧ ∀ r ∈ after, r.key ≠ k

/-- The keys of the rules that were put in, each where it came first. -/
def distinctKeys (inserted : List Rule) : List Nat := (inserted.map Rule.key).eraseDups

variable {inserted : List Rule} {rule : Rule} {k : Nat}

/-- The last rule is the first one that is met from the end. -/
theorem isLast_iff_find?_reverse :
    IsLast inserted k rule ↔ inserted.reverse.find? (·.key == k) = some rule := by
  rw [List.find?_eq_some_iff_append]
  simp only [beq_iff_eq, Bool.not_eq_true', beq_eq_false_iff_ne]
  constructor
  · rintro ⟨before, after, rfl, hkey, hafter⟩
    refine ⟨hkey, after.reverse, before.reverse, by simp, fun r hr => ?_⟩
    exact hafter r (List.mem_reverse.mp hr)
  · rintro ⟨hkey, after, before, hsplit, hafter⟩
    refine ⟨before.reverse, after.reverse, ?_, hkey, fun r hr => hafter r (List.mem_reverse.mp hr)⟩
    rw [List.reverse_eq_iff.mp hsplit]
    simp

theorem distinctKeys_concat_of_mem (h : rule.key ∈ distinctKeys inserted) :
    distinctKeys (inserted ++ [rule]) = distinctKeys inserted := by
  rw [distinctKeys, List.mem_eraseDups] at h
  rw [distinctKeys, List.map_append, List.map_singleton, List.eraseDups_append, distinctKeys,
    List.removeAll, List.filter_cons_of_neg (by simpa using h), List.filter_nil]
  exact List.append_nil _

theorem distinctKeys_concat_of_notMem (h : rule.key ∉ distinctKeys inserted) :
    distinctKeys (inserted ++ [rule]) = distinctKeys inserted ++ [rule.key] := by
  rw [distinctKeys, List.mem_eraseDups] at h
  rw [distinctKeys, List.map_append, List.map_singleton, List.eraseDups_append, distinctKeys,
    List.removeAll, List.filter_cons_of_pos (by simpa using h), List.filter_nil]
  rfl

/-! ## One more rule -/

/-- A list holds the rules that were put into it. -/
structure Represents (inserted : List Rule) (l : FilterList) : Prop where
  wellFormed : l.WellFormed
  get? : ∀ k, l.get? k = inserted.reverse.find? (·.key == k)
  keys : l.keys = distinctKeys inserted

theorem represents_empty (id : Nat) : Represents [] { id } where
  wellFormed := wellFormed_empty id
  get? := get?_empty id
  keys := rfl

variable {l : FilterList}

/-- **The step.** -/
theorem Represents.insert (h : Represents inserted l) (rule : Rule) :
    Represents (inserted ++ [rule]) (l.insert rule) where
  wellFormed := h.wellFormed.insert rule
  get? k := by
    rw [get?_insert, h.get?, List.reverse_append, List.reverse_singleton, List.singleton_append]
    by_cases hk : rule.key = k
    · rw [if_pos hk, List.find?_cons_of_pos (by simpa using hk)]
    · rw [if_neg hk, List.find?_cons_of_neg (by simpa using hk)]
  keys := by
    cases hget : l.get? rule.key with
    | none =>
      have hnew : rule.key ∉ distinctKeys inserted := by
        rw [← h.keys, h.wellFormed.mem_keys, hget]
        exact Bool.false_ne_true
      rw [keys_insert_of_eq_none hget, h.keys, distinctKeys_concat_of_notMem hnew]
    | some old =>
      have hused : rule.key ∈ distinctKeys inserted := by
        rw [← h.keys, h.wellFormed.mem_keys, hget]
        rfl
      rw [h.wellFormed.keys_insert_of_eq_some hget, h.keys, distinctKeys_concat_of_mem hused]

/-- **The run.** -/
theorem Represents.foldl_insert (h : Represents inserted l) (rules : List Rule) :
    Represents (inserted ++ rules) (rules.foldl FilterList.insert l) := by
  induction rules generalizing inserted l with
  | nil =>
    rw [List.append_nil]
    exact h
  | cons rule rules ih =>
    rw [List.append_cons]
    exact ih (h.insert rule)

theorem id_foldl_insert (l : FilterList) (rules : List Rule) :
    (rules.foldl FilterList.insert l).id = l.id := by
  induction rules generalizing l with
  | nil => rfl
  | cons rule rules ih => exact ih (l.insert rule)

/-! ## What a list answers -/

/-- A list is what comes of putting some rules into a new one. -/
structure IsOrderedMapOf (id : Nat) (inserted : List Rule) (l : FilterList) : Prop where
  id : l.id = id
  get?_eq_some_iff : ∀ k rule, l.get? k = some rule ↔ IsLast inserted k rule
  get?_eq_none_iff : ∀ k, l.get? k = none ↔ ∀ rule ∈ inserted, rule.key ≠ k
  /-- The keys are enumerated in the order in which they came first, each with its last rule. -/
  rules : List.Forall₂ (IsLast inserted) (distinctKeys inserted) l.rules
  nodup : (l.rules.map Rule.key).Nodup
  /-- What is found under a key among the enumerated rules is what is kept under it. -/
  find? : ∀ k, l.rules.find? (·.key == k) = l.get? k
  length_distinctKeys : l.length = (distinctKeys inserted).length
  length_rules : l.length = l.rules.length
  isEmpty_iff : l.isEmpty = true ↔ l.length = 0

/-- Every rule in a list is the last one put in under its key. -/
theorem Represents.isLast_of_mem_rules (h : Represents inserted l) (hrule : rule ∈ l.rules) :
    IsLast inserted rule.key rule := by
  rw [isLast_iff_find?_reverse, ← h.get?]
  exact h.wellFormed.mem_rules_iff.mp hrule

/-- **An ordered map.** -/
theorem isOrderedMapOf_foldl_insert (id : Nat) (inserted : List Rule) :
    IsOrderedMapOf id inserted (inserted.foldl insert { id }) := by
  have h : Represents inserted (inserted.foldl FilterList.insert { id }) :=
    (represents_empty id).foldl_insert inserted
  constructor
  case id => exact id_foldl_insert _ inserted
  case get?_eq_some_iff =>
    intro k rule
    rw [h.get?, isLast_iff_find?_reverse]
  case get?_eq_none_iff =>
    intro k
    rw [h.get?, List.find?_eq_none]
    simp only [List.mem_reverse, beq_iff_eq, ne_eq]
  case rules =>
    rw [← h.keys, keys, List.forall₂_map_left_iff, List.forall₂_same]
    exact fun rule hrule => h.isLast_of_mem_rules hrule
  case nodup => exact h.wellFormed.nodup
  case find? => exact h.wellFormed.find?
  case length_distinctKeys =>
    rw [h.wellFormed.length, ← h.keys, keys, List.length_map]
  case length_rules => exact h.wellFormed.length
  case isEmpty_iff =>
    rw [h.wellFormed.length, isEmpty, rules, Array.isEmpty_iff_size_eq_zero, Array.length_toList]

end ContentFilter.FilterList
