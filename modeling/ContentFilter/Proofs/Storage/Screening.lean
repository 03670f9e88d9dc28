import ContentFilter.Proofs.Rule.Validity
import ContentFilter.Proofs.Storage.SeveralLists

/-!
# Loading what would not be valid

Rules come into a storage line by line, without having been judged as single rules before. Whether
that makes a difference is settled here. For a line that is long enough it makes none: it is
reported exactly if there is an objection to it, and with that objection
(`errors_eq_objection`).

For a line that is too short it does. The loader reads it like any other, so the least length of
rules has no bearing on what is loaded, and a rule of one byte can come into a storage under any
least length (`minRuleLength_le_iff`).
-/

set_option autoImplicit false

namespace ContentFilter

/-! ## One line -/

/-- A line is reported once with what it is refused for, or not at all if it can be read. -/
theorem map_message_errors_loadList (config : Config) (id : Nat) (text : Text)
    (h : (Text.lines text).length ≤ keyLimit) {i : Nat} {line : Text}
    (hline : (Text.lines text)[i]? = some line) :
    ((loadList config id text).2.filter (·.line = i)).map (·.message) =
      (Rule.read config.parser.duplicates ⟨id, i⟩ line).message?.toList := by
  obtain ⟨l, hl, hloaded⟩ := loaded_loadList config id text
  have hi : i < (Text.lines text).length := (List.getElem?_eq_some_iff.mp hline).1
  have hread : readAt? config.parser.duplicates id (Text.lines text) i =
      some (Rule.read config.parser.duplicates ⟨id, i⟩ line) :=
    readAt?_of_getElem? (Nat.lt_of_lt_of_le hi h) hline
  rw [hl, Loader.finish, hloaded.filter_errors_eq, errorAt?, hread]
  cases Rule.read config.parser.duplicates ⟨id, i⟩ line <;> rfl

/-- **Judging and loading agree.** A line that is too short is objected to as such. A line that is
long enough is objected to exactly if loading its text reports it, which it then does once and in
the same words; comments are neither objected to nor reported. -/
theorem errors_eq_objection (config : Config) (id : Nat) (text : Text)
    (h : (Text.lines text).length ≤ keyLimit) {i : Nat} {line : Text}
    (hline : (Text.lines text)[i]? = some line) :
    let rule := Text.trim Text.isWhite line
    let errors := (loadList config id text).2
    (config.parser.minRuleLength ≤ rule.utf8Encode.size →
      (Rule.isValid config.parser line = false ↔ ∃ e ∈ errors, e.line = i) ∧
      (errors.filter (·.line = i)).map (·.message) =
        (Rule.objection? config.parser line).toList ∧
      (Rule.isComment rule = true →
        Rule.isValid config.parser line = true ∧ ∀ e ∈ errors, e.line ≠ i)) ∧
    (rule.utf8Encode.size < config.parser.minRuleLength →
      Rule.objection? config.parser line = some ("Rule is too short: ".toList ++ rule)) := by
  intro rule errors
  have hmessages := map_message_errors_loadList config id text h hline
  have hobjection := Rule.objection?_eq config.parser ⟨id, i⟩ line
  rw [Text.size_utf8Encode]
  constructor
  · intro hlong
    rw [if_neg (Nat.not_lt.mpr hlong)] at hobjection
    rw [← hobjection] at hmessages
    -- A line is valid if no error is left of those with its number.
    have hquiet : Rule.isValid config.parser line = true ↔ ∀ e ∈ errors, e.line ≠ i := by
      rw [Rule.isValid, Option.isNone_iff_eq_none, ← Option.toList_eq_nil_iff, ← hmessages,
        List.map_eq_nil_iff, List.filter_eq_nil_iff]
      simp only [decide_eq_true_eq, ne_eq]
      rfl
    refine ⟨?_, hmessages, fun hcomment => ?_⟩
    · rw [← Bool.not_eq_true, hquiet]
      push Not
      rfl
    · have hvalid : Rule.isValid config.parser line = true := by
        rw [Rule.isValid, hobjection, Rule.read_of_blank_or_comment (.inr hcomment)]
        rfl
      exact ⟨hvalid, hquiet.mp hvalid⟩
  · intro hshort
    rw [hobjection, if_pos hshort]

/-- The second of these lines is indented and faulty, the third one has two bytes. -/
theorem errors_eq_objection_indented :
    let text := "! hosts\n  ||a.com^$bogus\nab".toList
    (Text.lines text).length ≤ keyLimit ∧
      (Text.lines text)[1]? = some "  ||a.com^$bogus".toList ∧
      (Text.lines text)[2]? = some "ab".toList ∧
      Rule.objection? {} "  ||a.com^$bogus".toList = some "'bogus' is not valid modifier".toList ∧
      ((loadList {} 1 text).2.filter (·.line = 1)).map (·.message) =
        ["'bogus' is not valid modifier".toList] ∧
      Rule.objection? {} "ab".toList = some "Rule is too short: ab".toList := by
  intro text
  have hlimit : (Text.lines text).length ≤ keyLimit := by decide
  have hfaulty : (Text.lines text)[1]? = some "  ||a.com^$bogus".toList := by decide
  have hshort : (Text.lines text)[2]? = some "ab".toList := by decide
  have hobjection : Rule.objection? {} "  ||a.com^$bogus".toList =
      some "'bogus' is not valid modifier".toList := by rfl
  have hagree := (errors_eq_objection {} 1 text hlimit hfaulty).1 (by decide)
  refine ⟨hlimit, hfaulty, hshort, hobjection, ?_, ?_⟩
  · rw [hagree.2.1, hobjection]
    rfl
  · exact (errors_eq_objection {} 1 text hlimit hshort).2 (by decide)

/-! ## Storages -/

/-- The least length of rules is not among what loading looks at. -/
theorem loadStorage_minRuleLength (config : Config) (n : Nat) (lists : List (Nat × Text)) :
    loadStorage { config with parser := { config.parser with minRuleLength := n } } lists =
      loadStorage config lists := rfl

/-- A rule that a storage holds is long enough exactly if its line is valid. -/
theorem minRuleLength_le_size_iff {config : Config} {id : RuleId} {line : Text} {rule : Rule}
    (hread : Rule.read config.parser.duplicates id line = .ok (some rule)) :
    config.parser.minRuleLength ≤ (Text.trim Text.isWhite rule.text).utf8Encode.size ↔
      Rule.isValid config.parser line = true := by
  rw [Rule.isValid_iff_of_read_eq_ok hread, Text.size_utf8Encode, (Rule.frame_of_read hread).2,
    Text.trim_trim]

/-- A rule of one byte, which is a pattern that most addresses contain. -/
def shortRule : Text := "a".toList

/-- The loader stores a rule however short it is, whatever the configuration says. -/
theorem mem_rules_shortRule (config : Config) :
    .network (.bare ⟨1, 0⟩ shortRule shortRule false) ∈
      (loadStorage config [(1, shortRule)]).1.rules := by
  have hlast : IsLastOf [(1, shortRule)] 1 shortRule := ⟨[], [], rfl, by simp⟩
  have hkey : 0 < keyLimit := by decide
  exact mem_rules_of_isLastOf hlast hkey rfl rfl

/-- **The least length of rules and loading.** All rules of a storage are long enough exactly if
every line that counts and holds a rule is valid. Nothing in loading sees to that: whatever the
least length is, the same is loaded. So rules are sure to be long enough only if they have to be no
longer than one byte. -/
theorem minRuleLength_le_iff (config : Config) :
    (∀ lists : List (Nat × Text),
      (∀ rule ∈ (loadStorage config lists).1.rules,
        config.parser.minRuleLength ≤ (Text.trim Text.isWhite rule.text).utf8Encode.size) ↔
      ∀ id text key line, IsLastOf lists id text → key < keyLimit →
        (Text.lines text)[key]? = some line →
        (∃ rule, Rule.read config.parser.duplicates ⟨id, key⟩ line = .ok (some rule)) →
          Rule.isValid config.parser line = true) ∧
    (∀ n lists, loadStorage { config with parser := { config.parser with minRuleLength := n } } lists =
      loadStorage config lists) ∧
    ((∀ lists, ∀ rule ∈ (loadStorage config lists).1.rules,
        config.parser.minRuleLength ≤ (Text.trim Text.isWhite rule.text).utf8Encode.size) ↔
      config.parser.minRuleLength ≤ 1) := by
  refine ⟨fun lists => ?_, loadStorage_minRuleLength config, ?_⟩
  · constructor
    · rintro hlong id text key line htext hkey hline ⟨rule, hread⟩
      rw [← minRuleLength_le_size_iff hread]
      exact hlong rule (mem_rules_of_isLastOf htext hkey hline hread)
    · intro hvalid rule hrule
      obtain ⟨text, line, htext, hkey, hline, hread⟩ := mem_rules_loadStorage_iff.mp hrule
      rw [minRuleLength_le_size_iff hread]
      exact hvalid _ _ _ _ htext hkey hline ⟨rule, hread⟩
  · constructor
    · intro hlong
      exact hlong _ _ (mem_rules_shortRule config)
    · intro hone lists rule hrule
      obtain ⟨text, line, -, -, -, hread⟩ := mem_rules_loadStorage_iff.mp hrule
      -- A line that holds a rule is not blank.
      have hpos := Text.byteLength_pos (Rule.text_ne_nil_of_read hread)
      rw [Text.size_utf8Encode, (Rule.frame_of_read hread).2, Text.trim_trim,
        ← (Rule.frame_of_read hread).2]
      omega

/-- A storage can hold rules that are too short. -/
theorem exists_too_short :
    ¬ ∀ (config : Config) (lists : List (Nat × Text)), ∀ rule ∈ (loadStorage config lists).1.rules,
      config.parser.minRuleLength ≤ (Text.trim Text.isWhite rule.text).utf8Encode.size := by
  intro hlong
  have hsize := hlong {} _ _ (mem_rules_shortRule {})
  exact absurd hsize (by decide)

end ContentFilter
