import ContentFilter.Storage.FilterList
import Mathlib.Data.List.Nodup

/-!
# Filter lists hold every rule twice

A filter list has its rules in the order in which their keys came, and once more by key.
`FilterList.WellFormed` says that the two agree: of the rules in their order no two have one key,
and the first one with a key, which is then the only one, is the rule that is kept under it.

Putting a rule into a list keeps this. If the key is new, the rule comes last. If it is in use, it
is the agreement that makes the search for the place of the old rule succeed, so that the new rule
does not get lost from the order (`exists_rules_insert_of_eq_some`).
-/

set_option autoImplicit false

namespace ContentFilter.FilterList

variable {l : FilterList} {rule : Rule}

/-- The keys in the order in which they were first used. -/
def keys (l : FilterList) : List Nat := l.rules.map Rule.key

/-! ## Putting a rule into a list -/

theorem get?_insert_self (l : FilterList) (rule : Rule) :
    (l.insert rule).get? rule.key = some rule := by
  rw [get?_insert, if_pos rfl]

theorem get?_insert_of_ne (l : FilterList) {rule : Rule} {k : Nat} (h : rule.key ≠ k) :
    (l.insert rule).get? k = l.get? k := by
  rw [get?_insert, if_neg h]

/-- A list grows if the key was not in use. -/
theorem length_insert (l : FilterList) (rule : Rule) :
    (l.insert rule).length =
      if (l.get? rule.key).isSome then l.length else l.length + 1 :=
  RuleCache.size_set ..

/-- A rule with a new key comes last. -/
theorem rules_insert_of_eq_none (h : l.get? rule.key = none) :
    (l.insert rule).rules = l.rules ++ [rule] := by
  have hcache : l.cache.get? rule.key = none := h
  rw [rules, insert, hcache, Array.toList_push, rules]

/-- A rule with a key in use takes the place of the one before it. -/
theorem rules_insert_of_eq_some {old : Rule} (h : l.get? rule.key = some old) :
    (l.insert rule).rules = (replaceFirst l.arena rule).toList := by
  have hcache : l.cache.get? rule.key = some old := h
  rw [rules, insert, hcache]

theorem keys_insert_of_eq_none (h : l.get? rule.key = none) :
    (l.insert rule).keys = l.keys ++ [rule.key] := by
  rw [keys, rules_insert_of_eq_none h, List.map_append, List.map_singleton, keys]

/-! ## Agreement -/

/-- The two sides of a list agree. -/
structure WellFormed (l : FilterList) : Prop where
  nodup : l.keys.Nodup
  find? : ∀ k, l.rules.find? (·.key == k) = l.get? k
  length : l.length = l.rules.length

theorem get?_empty (id k : Nat) : ({ id } : FilterList).get? k = none :=
  Std.HashMap.getElem?_empty

theorem wellFormed_empty (id : Nat) : WellFormed { id } where
  nodup := .nil
  find? k := (get?_empty id k).symm
  length := rfl

/-- A rule carries the key that it is kept under. -/
theorem WellFormed.key (h : l.WellFormed) {k : Nat} {r : Rule} (hget : l.get? k = some r) :
    r.key = k := by
  rw [← h.find?] at hget
  simpa using List.find?_some hget

/-- The keys are those under which there is a rule. -/
theorem WellFormed.mem_keys (h : l.WellFormed) {k : Nat} :
    k ∈ l.keys ↔ (l.get? k).isSome = true := by
  rw [← h.find?, List.find?_isSome, keys, List.mem_map]
  simp only [beq_iff_eq]

/-- Where the rule with a key stands, another one with this key takes its place. -/
theorem WellFormed.exists_rules_insert_of_eq_some (h : l.WellFormed) {old : Rule}
    (hget : l.get? rule.key = some old) :
    ∃ before after, l.rules = before ++ old :: after ∧ (∀ r ∈ before, r.key ≠ rule.key) ∧
      (l.insert rule).rules = before ++ rule :: after := by
  have hfind : l.rules.find? (·.key == rule.key) = some old := (h.find? _).trans hget
  obtain ⟨-, before, after, hrules, hpassed⟩ := List.find?_eq_some_iff_append.mp hfind
  have hbefore : ∀ r ∈ before, r.key ≠ rule.key := by simpa using hpassed
  refine ⟨before, after, hrules, hbefore, ?_⟩
  rw [rules_insert_of_eq_some hget]
  exact toList_replaceFirst hrules hbefore (h.key hget)

/-- A rule with a key in use does not change the keys. -/
theorem WellFormed.keys_insert_of_eq_some (h : l.WellFormed) {old : Rule}
    (hget : l.get? rule.key = some old) : (l.insert rule).keys = l.keys := by
  obtain ⟨before, after, hrules, -, hinsert⟩ := h.exists_rules_insert_of_eq_some hget
  simp only [keys, hrules, hinsert, List.map_append, List.map_cons, h.key hget]

/-- Putting a rule in keeps the two sides in agreement. -/
theorem WellFormed.insert (h : l.WellFormed) (rule : Rule) : (l.insert rule).WellFormed := by
  cases hget : l.get? rule.key with
  | none =>
    have hnew : rule.key ∉ l.keys := by
      rw [h.mem_keys, hget]
      exact Bool.false_ne_true
    refine ⟨?_, fun k => ?_, ?_⟩
    · rw [keys_insert_of_eq_none hget, List.nodup_append]
      refine ⟨h.nodup, List.pairwise_singleton _ _, fun k hk k' hk' => ?_⟩
      rw [List.mem_singleton.mp hk']
      exact fun heq => hnew (heq ▸ hk)
    · rw [rules_insert_of_eq_none hget, List.find?_append, h.find?]
      by_cases hk : rule.key = k
      · rw [← hk, hget, get?_insert_self, Option.none_or,
          List.find?_cons_of_pos (by simp)]
      · rw [get?_insert_of_ne l hk, List.find?_cons_of_neg (by simpa using hk), List.find?_nil,
          Option.or_none]
    · rw [length_insert, hget, rules_insert_of_eq_none hget, List.length_append, h.length]
      rfl
  | some old =>
    obtain ⟨before, after, hrules, hbefore, hinsert⟩ := h.exists_rules_insert_of_eq_some hget
    refine ⟨?_, fun k => ?_, ?_⟩
    · rw [h.keys_insert_of_eq_some hget]
      exact h.nodup
    · by_cases hk : rule.key = k
      · have hnone : before.find? (·.key == k) = none := by simpa [hk] using hbefore
        rw [← hk, get?_insert_self, hinsert, List.find?_append, hk, hnone, Option.none_or,
          List.find?_cons_of_pos (by simpa using hk)]
      · -- Neither the old rule nor the new one has the key `k`.
        have hold : old.key ≠ k := by rwa [h.key hget]
        rw [get?_insert_of_ne l hk, ← h.find?, hrules, hinsert, List.find?_append,
          List.find?_append, List.find?_cons_of_neg (by simpa using hk),
          List.find?_cons_of_neg (by simpa using hold)]
    · rw [length_insert, hget, hinsert, h.length, hrules, List.length_append, List.length_append]
      rfl

/-! ## Enumerating a list -/

/-- The rules of the order are those that are kept, each under its own key. -/
theorem WellFormed.mem_rules_iff (h : l.WellFormed) {r : Rule} :
    r ∈ l.rules ↔ l.get? r.key = some r := by
  constructor
  · intro hr
    -- Some rule with this key is found, and there is only one.
    have hkey : r.key ∈ l.keys := List.mem_map_of_mem hr
    obtain ⟨r', hr'⟩ := Option.isSome_iff_exists.mp (h.mem_keys.mp hkey)
    have hmem : r' ∈ l.rules := List.mem_of_find?_eq_some ((h.find? r.key).trans hr')
    rw [hr', List.inj_on_of_nodup_map h.nodup hmem hr (h.key hr')]
  · intro hget
    exact List.mem_of_find?_eq_some ((h.find? r.key).trans hget)

/-- The rules are those that are found under some key. -/
theorem WellFormed.mem_rules (h : l.WellFormed) {r : Rule} :
    r ∈ l.rules ↔ ∃ k, l.get? k = some r := by
  rw [h.mem_rules_iff]
  constructor
  · exact fun hget => ⟨r.key, hget⟩
  · rintro ⟨k, hget⟩
    rwa [h.key hget]

end ContentFilter.FilterList
