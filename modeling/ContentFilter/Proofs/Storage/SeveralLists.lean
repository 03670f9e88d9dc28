import ContentFilter.Proofs.Storage.Lists
import ContentFilter.Proofs.Storage.Loading

/-!
# Storages loaded from several lists

Each text is loaded by itself, and a list that is loaded is numbered (`numbered_loadList`), however
many lines the text has. So the storage of several texts is well formed, and what is in it comes
down to the texts: under each identity the last one counts, and of this text the lines that hold a
rule (`rule?_loadStorage_eq_some_iff`). `IsStorageOf` puts together what a storage answers.
-/

set_option autoImplicit false

namespace ContentFilter

/-! ## One list -/

section

variable (config : Config) (id : Nat) (text : Text)

/-- A loaded list is what a loader has that has read every line. -/
theorem loaded_loadList :
    ∃ l : Loader, loadList config id text = l.finish ∧
      Loader.Loaded config.parser.duplicates id (Text.lines text) (Text.lines text).length l := by
  refine ⟨_, ?_, Loader.loaded_foldl config id text (Text.lines text)⟩
  rw [loadList_eq_loadLines, Loader.loadLines_eq_foldl config id text]

theorem id_loadList : (loadList config id text).1.id = id := by
  obtain ⟨l, hl, hloaded⟩ := loaded_loadList config id text
  rw [hl]
  exact hloaded.listId

/-- A list holds the rules of its lines, each under the number of its line. -/
theorem get?_loadList (k : Nat) :
    (loadList config id text).1.get? k =
      ruleAt? config.parser.duplicates id (Text.lines text) k := by
  obtain ⟨l, hl, hloaded⟩ := loaded_loadList config id text
  rw [hl]
  exact hloaded.get?_eq_ruleAt? k

/-- A loaded list is numbered. -/
theorem numbered_loadList : (loadList config id text).1.Numbered where
  wellFormed := by
    obtain ⟨l, hl, hloaded⟩ := loaded_loadList config id text
    rw [hl]
    exact hloaded.wellFormed
  ruleId k rule hget := by
    rw [get?_loadList] at hget
    rw [id_loadList]
    exact key_of_ruleAt? hget
  sorted := by
    obtain ⟨l, hl, hloaded⟩ := loaded_loadList config id text
    rw [hl]
    exact hloaded.rules_sorted

end

/-! ## Several lists -/

variable {config : Config} {lists : List (Nat × Text)}

/-- The storage of several lists is had by adding them one after the other. -/
theorem loadStorage_eq_foldl (config : Config) (lists : List (Nat × Text)) :
    (loadStorage config lists).1 =
      (lists.map fun l => (loadList config l.1 l.2).1).foldl Storage.add {} := by
  rw [loadStorage, List.foldl_map, List.foldl_map]

/-- The storage of several lists is well formed. -/
theorem wellFormed_loadStorage (config : Config) (lists : List (Nat × Text)) :
    (loadStorage config lists).1.WellFormed := by
  rw [loadStorage_eq_foldl]
  refine Storage.wellFormed_empty.foldl_add fun l hl => ?_
  obtain ⟨pair, -, rfl⟩ := List.mem_map.mp hl
  exact numbered_loadList config pair.1 pair.2

/-- A text is the last one of those with an identity. -/
def IsLastOf (lists : List (Nat × Text)) (id : Nat) (text : Text) : Prop :=
  ∃ earlier later, lists = earlier ++ (id, text) :: later ∧ ∀ l ∈ later, l.1 ≠ id

/-- An identity that occurs occurs a last time. -/
theorem exists_isLastOf_of_mem {id : Nat} {text : Text} (h : (id, text) ∈ lists) :
    ∃ last, IsLastOf lists id last := by
  have hsome : (lists.reverse.find? (·.1 == id)).isSome = true :=
    List.find?_isSome.mpr ⟨(id, text), List.mem_reverse.mpr h, beq_self_eq_true id⟩
  obtain ⟨last, hlast⟩ := Option.isSome_iff_exists.mp hsome
  obtain ⟨hid, later, earlier, hsplit, hlater⟩ := List.find?_eq_some_iff_append.mp hlast
  obtain rfl : last.1 = id := by simpa using hid
  refine ⟨last.2, earlier.reverse, later.reverse, ?_, fun l hl => ?_⟩
  · rw [← List.reverse_reverse lists, hsplit]
    simp
  · simpa using hlater l (List.mem_reverse.mp hl)

/-- The last text with an identity is the one that counts. -/
theorem list?_loadStorage_of_isLastOf {id : Nat} {text : Text} (h : IsLastOf lists id text) :
    (loadStorage config lists).1.list? id = some (loadList config id text).1 := by
  obtain ⟨earlier, later, rfl, hlater⟩ := h
  rw [loadStorage_eq_foldl, Storage.list?_foldl_add, List.map_append, List.map_cons,
    List.reverse_append, List.reverse_cons, List.append_assoc, List.find?_append]
  -- The search begins with the later lists, and none of them has the identity.
  have hnone : (later.map fun l => (loadList config l.1 l.2).1).reverse.find? (·.id == id) =
      none := by
    refine List.find?_eq_none.mpr fun l hl => ?_
    obtain ⟨pair, hpair, rfl⟩ := List.mem_map.mp (List.mem_reverse.mp hl)
    simpa [id_loadList] using hlater pair hpair
  rw [hnone, Option.none_or, List.singleton_append, List.find?_cons_of_pos, Option.some_or]
  simpa using id_loadList config id text

/-- An identity that does not occur has no list. -/
theorem list?_loadStorage_eq_none {id : Nat} (h : ∀ l ∈ lists, l.1 ≠ id) :
    (loadStorage config lists).1.list? id = none := by
  rw [loadStorage_eq_foldl, Storage.list?_foldl_add, Option.or_eq_none_iff]
  refine ⟨List.find?_eq_none.mpr fun l hl => ?_, rfl⟩
  obtain ⟨pair, hpair, rfl⟩ := List.mem_map.mp (List.mem_reverse.mp hl)
  simpa [id_loadList] using h pair hpair

/-- A storage holds the rules of the lines of the texts that count. -/
theorem rule?_loadStorage_eq_some_iff {id key : Nat} {rule : Rule} :
    (loadStorage config lists).1.rule? id key = some rule ↔
      ∃ text, IsLastOf lists id text ∧
        ruleAt? config.parser.duplicates id (Text.lines text) key = some rule := by
  -- If a text counts, a rule is looked up among its lines.
  have hlast : ∀ text, IsLastOf lists id text → (loadStorage config lists).1.rule? id key =
      ruleAt? config.parser.duplicates id (Text.lines text) key := by
    intro text htext
    rw [Storage.rule?, list?_loadStorage_of_isLastOf htext, Option.bind_some, get?_loadList]
  constructor
  · intro hrule
    by_cases hid : ∀ l ∈ lists, l.1 ≠ id
    · rw [Storage.rule?, list?_loadStorage_eq_none hid, Option.bind_none] at hrule
      cases hrule
    · push Not at hid
      obtain ⟨⟨_, text⟩, hmem, rfl⟩ := hid
      obtain ⟨last, htext⟩ := exists_isLastOf_of_mem hmem
      exact ⟨last, htext, (hlast last htext).symm.trans hrule⟩
  · rintro ⟨text, htext, hrule⟩
    exact (hlast text htext).trans hrule

/-- The rules of a storage are those that are read from a line of a text that counts, under the
identity of the list and the number of the line. -/
theorem mem_rules_loadStorage_iff {rule : Rule} :
    rule ∈ (loadStorage config lists).1.rules ↔
      ∃ text line, IsLastOf lists rule.id.list text ∧ rule.id.key < keyLimit ∧
        (Text.lines text)[rule.id.key]? = some line ∧
          Rule.read config.parser.duplicates rule.id line = .ok (some rule) := by
  have hstored : rule ∈ (loadStorage config lists).1.rules ↔
      (loadStorage config lists).1.rule? rule.id.list rule.id.key = some rule := by
    rw [(wellFormed_loadStorage config lists).rule?_eq_some_iff, and_iff_left rfl]
  rw [hstored, rule?_loadStorage_eq_some_iff]
  refine exists_congr fun text => ?_
  rw [ruleAt?_eq_some_iff, exists_and_left, exists_and_left]

/-- Every rule of a storage was read from the line with its key, in the text that counts under the
identity of its list. -/
theorem exists_line_of_mem_rules {rule : Rule} (h : rule ∈ (loadStorage config lists).1.rules) :
    ∃ text line, IsLastOf lists rule.id.list text ∧
      (Text.lines text)[rule.id.key]? = some line ∧
        Rule.read config.parser.duplicates rule.id line = .ok (some rule) := by
  obtain ⟨text, line, hlast, -, hline, hread⟩ := mem_rules_loadStorage_iff.mp h
  exact ⟨text, line, hlast, hline, hread⟩

/-- The rule of a line of the text that counts is in the storage. -/
theorem mem_rules_of_isLastOf {id key : Nat} {text line : Text} {rule : Rule}
    (htext : IsLastOf lists id text) (hkey : key < keyLimit)
    (hline : (Text.lines text)[key]? = some line)
    (hread : Rule.read config.parser.duplicates ⟨id, key⟩ line = .ok (some rule)) :
    rule ∈ (loadStorage config lists).1.rules := by
  have hid : rule.id = ⟨id, key⟩ := Rule.id_of_read hread
  rw [mem_rules_loadStorage_iff, hid]
  exact ⟨text, line, htext, hkey, hline, hread⟩

/-! ## What a storage answers -/

/-- A storage and errors are what loading some texts gives: under every identity there is what its
last text loads to, and all ways to the rules lead to the same rules. -/
structure IsStorageOf (config : Config) (lists : List (Nat × Text)) (storage : Storage)
    (errors : List (Nat × LineError)) : Prop where
  /-- The last text with an identity is the one that counts. -/
  list?_of_last : ∀ earlier id text later, lists = earlier ++ (id, text) :: later →
    (∀ l ∈ later, l.1 ≠ id) → storage.list? id = some (loadList config id text).1
  list?_eq_none : ∀ id, (∀ l ∈ lists, l.1 ≠ id) → storage.list? id = none
  /-- The rules are enumerated by list and then by line. -/
  rules_sorted : storage.rules.Pairwise (·.id.Precedes ·.id)
  /-- No two rules have one identity. -/
  nodup_rules : (storage.rules.map Rule.id).Nodup
  rule?_iff : ∀ id key rule,
    storage.rule? id key = some rule ↔ rule ∈ storage.rules ∧ rule.id = ⟨id, key⟩
  rulesCount : storage.rulesCount = storage.rules.length
  /-- Every rule is enumerated again either as a network rule or as a cosmetic rule. -/
  networkRules : storage.networkRules.map .network = storage.rules.filter (·.network?.isSome)
  cosmeticRules : storage.cosmeticRules.map .cosmetic = storage.rules.filter (·.network?.isNone)
  /-- The errors are those of all texts, also of those that do not count. -/
  errors : errors = lists.flatMap fun l => (loadList config l.1 l.2).2.map (l.1, ·)

/-- **Several lists.** However many texts there are and whatever their identities, loading them
gives a storage and errors that answer for them. -/
theorem isStorageOf_loadStorage (config : Config) (lists : List (Nat × Text)) :
    IsStorageOf config lists (loadStorage config lists).1 (loadStorage config lists).2 where
  list?_of_last earlier id text later hlists hlater :=
    list?_loadStorage_of_isLastOf ⟨earlier, later, hlists, hlater⟩
  list?_eq_none id h := list?_loadStorage_eq_none h
  rules_sorted := (wellFormed_loadStorage config lists).rules_sorted
  nodup_rules := (wellFormed_loadStorage config lists).nodup_rules
  rule?_iff _ _ _ := (wellFormed_loadStorage config lists).rule?_eq_some_iff
  rulesCount := (wellFormed_loadStorage config lists).rulesCount_eq
  networkRules := Storage.map_networkRules _
  cosmeticRules := Storage.map_cosmeticRules _
  errors := by
    rw [loadStorage, List.flatMap_map]
    simp only [id_loadList]

end ContentFilter
