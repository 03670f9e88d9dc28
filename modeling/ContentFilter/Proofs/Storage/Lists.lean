import ContentFilter.Proofs.Storage.FilterList
import ContentFilter.Storage.Basic
import Mathlib.Data.List.Nodup

/-!
# Storages of numbered lists

A storage is reached in two ways. Its rules are enumerated list by list, and a rule is looked up by
the identity of its list and then by its key. Both give the same rules if every list is numbered
(`FilterList.Numbered`), that is, each of its rules carries the identity of the list and the key
that it is kept under, and if no two lists have one identity (`Storage.WellFormed`).

Putting a list into a storage keeps this: it goes to its place among the identities, or to the place
of the list that had its identity. So the enumeration goes through the identities of rules in order
(`WellFormed.rules_sorted`), first by list and then by key.
-/

set_option autoImplicit false

namespace ContentFilter

/-- One identity comes before another: it is of an earlier list, or of the same list with a lower
key. -/
def RuleId.Precedes (a b : RuleId) : Prop :=
  a.list < b.list ∨ a.list = b.list ∧ a.key < b.key

theorem RuleId.Precedes.ne {a b : RuleId} (h : a.Precedes b) : a ≠ b := by
  rintro rfl
  rcases h with h | h <;> omega

/-! ## Numbered lists -/

namespace FilterList

/-- Every rule of the list carries its identity and the key that it is kept under, and the rules
come in the order of their keys. -/
structure Numbered (l : FilterList) : Prop where
  wellFormed : l.WellFormed
  ruleId : ∀ k rule, l.get? k = some rule → rule.id = ⟨l.id, k⟩
  sorted : l.rules.Pairwise (·.key < ·.key)

variable {l : FilterList}

/-- Every rule carries the identity of its list. -/
theorem Numbered.list_of_mem_rules (h : l.Numbered) {rule : Rule} (hrule : rule ∈ l.rules) :
    rule.id.list = l.id := by
  obtain ⟨k, hget⟩ := h.wellFormed.mem_rules.mp hrule
  rw [h.ruleId k rule hget]

/-- The rule under a key is the one with that identity. -/
theorem Numbered.get?_eq_some_iff (h : l.Numbered) {k : Nat} {rule : Rule} :
    l.get? k = some rule ↔ rule ∈ l.rules ∧ rule.id = ⟨l.id, k⟩ := by
  rw [h.wellFormed.mem_rules]
  constructor
  · intro hget
    exact ⟨⟨k, hget⟩, h.ruleId k rule hget⟩
  · rintro ⟨⟨k', hget⟩, hid⟩
    rw [h.ruleId k' rule hget] at hid
    obtain rfl : k' = k := congrArg RuleId.key hid
    exact hget

/-- The rules of a list come in the order of their identities. -/
theorem Numbered.rules_sorted (h : l.Numbered) : l.rules.Pairwise (·.id.Precedes ·.id) := by
  refine h.sorted.imp_of_mem fun {a b} ha hb hab => .inr ⟨?_, hab⟩
  rw [h.list_of_mem_rules ha, h.list_of_mem_rules hb]

/-! ## Lists by identity -/

variable {list : FilterList} {lists : List FilterList}

theorem mem_insertSorted (h : l ∈ list.insertSorted lists) : l = list ∨ l ∈ lists := by
  induction lists with
  | nil => exact .inl (List.mem_singleton.mp h)
  | cons l' rest ih =>
    rw [insertSorted] at h
    split at h
    · exact List.mem_cons.mp h
    · split at h
      · exact (List.mem_cons.mp h).imp_right (List.mem_cons_of_mem l')
      · rcases List.mem_cons.mp h with rfl | h
        · exact .inr List.mem_cons_self
        · exact (ih h).imp_right (List.mem_cons_of_mem l')

/-- Putting a list in its place keeps the lists in order. -/
theorem sorted_insertSorted (h : lists.Pairwise (·.id < ·.id)) :
    (list.insertSorted lists).Pairwise (·.id < ·.id) := by
  induction lists with
  | nil => exact List.pairwise_singleton _ _
  | cons l rest ih =>
    obtain ⟨hl, hrest⟩ := List.pairwise_cons.mp h
    rw [insertSorted]
    by_cases hlt : list.id < l.id
    · rw [if_pos hlt]
      refine List.pairwise_cons.mpr ⟨fun l' hl' => ?_, h⟩
      rcases List.mem_cons.mp hl' with rfl | hl'
      · exact hlt
      · exact Nat.lt_trans hlt (hl l' hl')
    · rw [if_neg hlt]
      by_cases heq : list.id = l.id
      · -- The list takes the place of `l`, in front of the same lists.
        rw [if_pos heq]
        refine List.pairwise_cons.mpr ⟨fun l' hl' => ?_, hrest⟩
        rw [heq]
        exact hl l' hl'
      · rw [if_neg heq]
        refine List.pairwise_cons.mpr ⟨fun l' hl' => ?_, ih hrest⟩
        rcases mem_insertSorted hl' with rfl | hl'
        · omega
        · exact hl l' hl'

/-- A list that was put in its place is found under its identity, and the others under theirs. -/
theorem find?_insertSorted (list : FilterList) (lists : List FilterList) (id : Nat) :
    (list.insertSorted lists).find? (·.id == id) =
      if list.id = id then some list else lists.find? (·.id == id) := by
  induction lists with
  | nil =>
    rw [insertSorted, List.find?_cons, List.find?_nil]
    by_cases hid : list.id = id
    · simp only [hid, beq_self_eq_true, if_true]
    · simp only [beq_eq_false_iff_ne.mpr hid, if_neg hid]
  | cons l rest ih =>
    rw [insertSorted]
    by_cases hid : list.id = id
    · rw [if_pos hid] at ih ⊢
      by_cases hlt : list.id < l.id
      · rw [if_pos hlt, List.find?_cons_of_pos (by simpa using hid)]
      · rw [if_neg hlt]
        by_cases heq : list.id = l.id
        · rw [if_pos heq, List.find?_cons_of_pos (by simpa using hid)]
        · have hne : ¬ l.id = id := fun h => heq (hid.trans h.symm)
          rw [if_neg heq, List.find?_cons_of_neg (by simpa using hne), ih]
    · rw [if_neg hid] at ih ⊢
      by_cases hlt : list.id < l.id
      · rw [if_pos hlt, List.find?_cons_of_neg (by simpa using hid)]
      · rw [if_neg hlt]
        by_cases heq : list.id = l.id
        · -- The list that is replaced does not have the identity either.
          have hne : ¬ l.id = id := fun h => hid (heq.trans h)
          rw [if_pos heq, List.find?_cons_of_neg (by simpa using hid),
            List.find?_cons_of_neg (by simpa using hne)]
        · rw [if_neg heq, List.find?_cons, List.find?_cons, ih]

end FilterList

/-! ## Storages -/

namespace Storage

/-- The lists are numbered, and come in the order of their identities, which are all different. -/
structure WellFormed (s : Storage) : Prop where
  sorted : s.lists.Pairwise (·.id < ·.id)
  numbered : ∀ l ∈ s.lists, l.Numbered

variable {s : Storage}

theorem wellFormed_empty : WellFormed {} where
  sorted := .nil
  numbered _ h := nomatch h

/-- **The step.** -/
theorem WellFormed.add (h : s.WellFormed) {list : FilterList} (hlist : list.Numbered) :
    (s.add list).WellFormed where
  sorted := FilterList.sorted_insertSorted h.sorted
  numbered l hl := by
    rcases FilterList.mem_insertSorted hl with rfl | hl
    · exact hlist
    · exact h.numbered l hl

/-- **The run.** -/
theorem WellFormed.foldl_add (h : s.WellFormed) {lists : List FilterList}
    (hlists : ∀ l ∈ lists, l.Numbered) : (lists.foldl Storage.add s).WellFormed := by
  induction lists generalizing s with
  | nil => exact h
  | cons l lists ih =>
    exact ih (h.add (hlists l List.mem_cons_self)) fun l' hl' =>
      hlists l' (List.mem_cons_of_mem l hl')

/-- A list that was added is found under its identity, and the others under theirs. -/
theorem list?_add (s : Storage) (list : FilterList) (id : Nat) :
    (s.add list).list? id = if list.id = id then some list else s.list? id :=
  FilterList.find?_insertSorted list s.lists id

/-- Of the lists with an identity the last one is there. -/
theorem list?_foldl_add (s : Storage) (lists : List FilterList) (id : Nat) :
    (lists.foldl add s).list? id = (lists.reverse.find? (·.id == id)).or (s.list? id) := by
  induction lists generalizing s with
  | nil => rfl
  | cons l lists ih =>
    rw [List.foldl_cons, ih, list?_add, List.reverse_cons, List.find?_append, Option.or_assoc,
      List.find?_singleton]
    by_cases hid : l.id = id
    · simp [hid]
    · simp [hid]

/-- No two lists have the same identity. -/
theorem WellFormed.nodup_ids (h : s.WellFormed) : (s.lists.map (·.id)).Nodup :=
  List.pairwise_map.mpr (h.sorted.imp Nat.ne_of_lt)

/-- The list under an identity is the one that carries it. -/
theorem WellFormed.list?_eq_some_iff (h : s.WellFormed) {id : Nat} {l : FilterList} :
    s.list? id = some l ↔ l ∈ s.lists ∧ l.id = id := by
  constructor
  · intro hlist
    exact ⟨List.mem_of_find?_eq_some hlist, by simpa using List.find?_some hlist⟩
  · rintro ⟨hl, rfl⟩
    -- Some list is found, and no other one has the identity.
    obtain ⟨l', hl'⟩ : ∃ l', s.list? l.id = some l' :=
      Option.isSome_iff_exists.mp (List.find?_isSome.mpr ⟨l, hl, beq_self_eq_true l.id⟩)
    have hmem : l' ∈ s.lists := List.mem_of_find?_eq_some hl'
    have hid : l'.id = l.id := by simpa using List.find?_some hl'
    rw [hl', List.inj_on_of_nodup_map h.nodup_ids hmem hl hid]

/-! ## Rules by list -/

/-- The rules are enumerated in the order of their identities. -/
theorem WellFormed.rules_sorted (h : s.WellFormed) :
    s.rules.Pairwise (·.id.Precedes ·.id) := by
  rw [rules, List.pairwise_flatMap]
  -- Two rules of one list come by key; of two lists, they come as the lists do.
  refine ⟨fun l hl => (h.numbered l hl).rules_sorted, ?_⟩
  refine h.sorted.imp_of_mem fun {l l'} hl hl' hlt rule hrule rule' hrule' => .inl ?_
  rw [(h.numbered l hl).list_of_mem_rules hrule, (h.numbered l' hl').list_of_mem_rules hrule']
  exact hlt

/-- No two rules have the same identity. -/
theorem WellFormed.nodup_rules (h : s.WellFormed) : (s.rules.map Rule.id).Nodup :=
  List.pairwise_map.mpr (h.rules_sorted.imp RuleId.Precedes.ne)

/-- Looking a rule up and enumerating the rules come to the same. -/
theorem WellFormed.rule?_eq_some_iff (h : s.WellFormed) {id key : Nat} {rule : Rule} :
    s.rule? id key = some rule ↔ rule ∈ s.rules ∧ rule.id = ⟨id, key⟩ := by
  rw [rule?, Option.bind_eq_some_iff, rules, List.mem_flatMap]
  constructor
  · rintro ⟨l, hl, hget⟩
    obtain ⟨hmem, rfl⟩ := h.list?_eq_some_iff.mp hl
    obtain ⟨hrule, hid⟩ := (h.numbered l hmem).get?_eq_some_iff.mp hget
    exact ⟨⟨l, hmem, hrule⟩, hid⟩
  · rintro ⟨⟨l, hmem, hrule⟩, hid⟩
    -- The rule carries the identity of the list that it is in.
    have hlist : l.id = id := by
      rw [← (h.numbered l hmem).list_of_mem_rules hrule, hid]
    refine ⟨l, h.list?_eq_some_iff.mpr ⟨hmem, hlist⟩, ?_⟩
    exact (h.numbered l hmem).get?_eq_some_iff.mpr ⟨hrule, by rw [hid, hlist]⟩

/-- The number of rules is the number of those that are enumerated. -/
theorem WellFormed.rulesCount_eq (h : s.WellFormed) : s.rulesCount = s.rules.length := by
  have hcount : ∀ lists : List FilterList, (∀ l ∈ lists, l.Numbered) →
      lists.foldr (fun l n => l.length + n) 0 = (lists.flatMap (·.rules)).length := by
    intro lists hlists
    induction lists with
    | nil => rfl
    | cons l lists ih =>
      rw [List.foldr_cons, List.flatMap_cons, List.length_append,
        ih fun l' hl' => hlists l' (List.mem_cons_of_mem l hl'),
        (hlists l List.mem_cons_self).wellFormed.length]
  exact hcount s.lists h.numbered

/-! ## The two kinds of rules -/

/-- The network rules are those of the rules that are network rules, in the same order. -/
theorem map_networkRules (s : Storage) :
    s.networkRules.map .network = s.rules.filter (·.network?.isSome) := by
  rw [networkRules]
  induction s.rules with
  | nil => rfl
  | cons rule rules ih =>
    cases rule with
    | network r => exact congrArg (Rule.network r :: ·) ih
    | cosmetic r => exact ih

/-- The cosmetic rules are all others, in the same order. -/
theorem map_cosmeticRules (s : Storage) :
    s.cosmeticRules.map .cosmetic = s.rules.filter (·.network?.isNone) := by
  rw [cosmeticRules]
  induction s.rules with
  | nil => rfl
  | cons rule rules ih =>
    cases rule with
    | network r => exact ih
    | cosmetic r => exact congrArg (Rule.cosmetic r :: ·) ih

theorem mem_cosmeticRules {rule : CosmeticRule} :
    rule ∈ s.cosmeticRules ↔ .cosmetic rule ∈ s.rules := by
  rw [cosmeticRules, List.mem_filterMap]
  constructor
  · rintro ⟨r, hr, hcosmetic⟩
    cases r with
    | network r => exact nomatch hcosmetic
    | cosmetic r =>
      obtain rfl := Option.some.inj hcosmetic
      exact hr
  · exact fun h => ⟨_, h, rfl⟩

/-- So the cosmetic rules come in the order of their identities, too. -/
theorem WellFormed.cosmeticRules_sorted (h : s.WellFormed) :
    s.cosmeticRules.Pairwise (·.id.Precedes ·.id) := by
  have hsorted := h.rules_sorted.filter (·.network?.isNone)
  rw [← map_cosmeticRules, List.pairwise_map] at hsorted
  exact hsorted

end Storage

end ContentFilter
