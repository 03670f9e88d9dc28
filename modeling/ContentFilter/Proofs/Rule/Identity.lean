import ContentFilter.Proofs.Network.Steps
import ContentFilter.Rule.Reader

/-!
# The identity of a rule that is read

A reader is told the identity of the rule it reads and puts it into the rule unchanged, whatever
kind of rule it is and whatever modifiers it has. So a list that keeps rules by the identities
they carry keeps them by those that it gave out.

The text of the rule is the line that it was read from, without the white space around it.

No reader looks at the identity, either. The same line read under another identity is the same rule
with that identity, or is refused with the same error (`Rule.read_withId`).
-/

set_option autoImplicit false

namespace ContentFilter

/-- A cosmetic rule has the identity that it was read under, and its own text. -/
theorem CosmeticRule.frame_of_parse {policy : DuplicatePolicy} {id : RuleId} {rule : Fragment}
    {r : CosmeticRule} (h : parse policy id rule = .ok r) : r.id = id ∧ r.text = rule.text := by
  rw [parse] at h
  obtain ⟨parts, -, h⟩ := Reading.bind_eq_ok_iff.mp h
  obtain ⟨scope, -, h⟩ := Reading.bind_eq_ok_iff.mp h
  obtain ⟨-, -, h⟩ := Reading.bind_eq_ok_iff.mp h
  obtain rfl := Except.ok.inj h
  exact ⟨rfl, rfl⟩

/-! ## Reading under another identity -/

/-- A cosmetic rule that is read under another identity differs in nothing else. -/
theorem CosmeticRule.parse_withId (policy : DuplicatePolicy) (id id' : RuleId) (rule : Fragment) :
    (parse policy id rule).map (fun r => { r with id := id' }) = parse policy id' rule := by
  rw [parse, parse, Reading.map_bind]
  refine bind_congr fun parts => ?_
  rw [Reading.map_bind]
  refine bind_congr fun scope => ?_
  rw [Reading.map_bind]
  rfl

namespace NetworkRule

/-- Adding effects does not look at the identity. -/
theorem withId_foldl_add (r : NetworkRule) (es : List Modifier.Effect) (id : RuleId) :
    { es.foldl add r with id } = es.foldl add { r with id } := by
  induction es generalizing r with
  | nil => rfl
  | cons e es ih => exact ih (r.add e)

/-- A network rule that is read under another identity differs in nothing else. -/
theorem parse_withId (policy : DuplicatePolicy) (id id' : RuleId) (rule : Fragment) :
    (parse policy id rule).map (fun r => { r with id := id' }) = parse policy id' rule := by
  rw [parse_eq, parse_eq]
  dsimp only
  rw [Reading.map_bind]
  refine bind_congr fun modifiers => ?_
  split
  · rfl
  · -- Effects are had of the kind of the rule alone, and added to the rule as it is.
    rw [applyAll_eq_effects, applyAll_eq_effects]
    generalize Parts.ofFragment rule = parts
    show ((effects parts.allowlist modifiers.entries).map _).map _ =
      (effects parts.allowlist modifiers.entries).map _
    cases effects parts.allowlist modifiers.entries with
    | error e => rfl
    | ok es => exact congrArg Except.ok (withId_foldl_add _ es id')

end NetworkRule

namespace Rule

/-- The rule under another identity. -/
def withId (id : RuleId) : Rule → Rule
  | .network r => .network { r with id }
  | .cosmetic r => .cosmetic { r with id }

/-- What is read under one identity is what is read under another one, but for the identity. -/
theorem read_withId (policy : DuplicatePolicy) (id id' : RuleId) (text : Text) :
    (read policy id text).map (Option.map (withId id')) = read policy id' text := by
  rw [read, read]
  generalize (Fragment.whole text).trim Text.isWhite = line
  split
  · rfl
  · split
    · rw [← CosmeticRule.parse_withId policy id id']
      cases CosmeticRule.parse policy id line <;> rfl
    · rw [← NetworkRule.parse_withId policy id id']
      cases NetworkRule.parse policy id line <;> rfl

/-! ## What a reader keeps -/

variable {policy : DuplicatePolicy} {id : RuleId} {text : Text}

/-- A rule has the identity that its line was read under, and the trimmed line as its text. -/
theorem frame_of_read {rule : Rule} (h : read policy id text = .ok (some rule)) :
    rule.id = id ∧ rule.text = Text.trim Text.isWhite text := by
  rw [read] at h
  split at h
  · exact nomatch h
  · split at h
    · obtain ⟨r, hparse, hrule⟩ := Reading.map_eq_ok_iff.mp h
      obtain rfl := Option.some.inj hrule
      exact CosmeticRule.frame_of_parse hparse
    · obtain ⟨r, hparse, hrule⟩ := Reading.map_eq_ok_iff.mp h
      obtain rfl := Option.some.inj hrule
      obtain ⟨hid, htext, -⟩ := NetworkRule.frame_of_parse hparse
      exact ⟨hid, htext⟩

theorem id_of_read {rule : Rule} (h : read policy id text = .ok (some rule)) : rule.id = id :=
  (frame_of_read h).1

/-- Blank lines and comments hold no rule, and nothing is wrong with them. -/
theorem read_of_blank_or_comment
    (h : Text.trim Text.isWhite text = [] ∨ isComment (Text.trim Text.isWhite text) = true) :
    read policy id text = .ok none := by
  have hline : ((Fragment.whole text).trim Text.isWhite).text = Text.trim Text.isWhite text := rfl
  rw [read]
  simp only [hline]
  apply if_pos
  rw [Bool.or_eq_true, List.isEmpty_iff]
  exact h

/-- So a line that holds a rule has some text to keep. -/
theorem text_ne_nil_of_read {rule : Rule} (h : read policy id text = .ok (some rule)) :
    rule.text ≠ [] := by
  rw [(frame_of_read h).2]
  intro hblank
  rw [read_of_blank_or_comment (.inl hblank)] at h
  exact nomatch h

end Rule

end ContentFilter
