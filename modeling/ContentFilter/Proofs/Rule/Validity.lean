import ContentFilter.Proofs.Rule.Shift
import ContentFilter.Rule.Validity

/-!
# Judging a rule and reading it

A rule is judged in another way than it is read from a list. It is trimmed before anything else, it
is measured, comments are passed over before the reader sees them, and what is left is read under an
identity that belongs to no list. `objection?_eq` takes these differences away one by one. Trimming
moves an error and does not change what it says, identities do not matter to readers, and a comment
has no error to begin with. What is left is the measure: a rule that is long enough is objected to
exactly if its line cannot be read, and in the same words.
-/

set_option autoImplicit false

namespace ContentFilter

/-! ## The words of a refusal -/

/-- What an answer says if it is a refusal. -/
def Reading.message? {α : Type} : Reading α → Option Text
  | .ok _ => none
  | .error e => some e.message

/-- Moving an answer does not change what it says. -/
theorem Reading.message?_shift {α : Type} (base : Nat) (move : α → α) (x : Reading α) :
    (x.shift base move).message? = x.message? := by
  cases x <;> rfl

/-- Computing on with a result does not change what a refusal says. -/
theorem Reading.message?_map {α β : Type} (f : α → β) (x : Reading α) :
    Reading.message? (x.map f) = x.message? := by
  cases x <;> rfl

namespace Rule

/-- What is said against a line depends neither on its identity nor on the white space around it. -/
theorem message?_read_trim (policy : DuplicatePolicy) (id id' : RuleId) (text : Text) :
    (read policy id (Text.trim Text.isWhite text)).message? = (read policy id' text).message? := by
  obtain ⟨head, tail, hsplit, hhead, htail⟩ := Text.exists_trim (p := Text.isWhite) text
  have hread := read_append_white policy id' (Text.trim Text.isWhite text) hhead htail
  rw [← hsplit] at hread
  rw [hread, Reading.message?_shift, ← read_withId policy id id', Reading.message?_map]

/-! ## Objections -/

/-- **One rule.** A rule that is too short is objected to as such, and any other for what its line
is refused for, whatever the identity it is read under. -/
theorem objection?_eq (config : ParserConfig) (id : RuleId) (text : Text) :
    objection? config text =
      if Text.byteLength (Text.trim Text.isWhite text) < config.minRuleLength then
        some ("Rule is too short: ".toList ++ Text.trim Text.isWhite text)
      else (read config.duplicates id text).message? := by
  rw [objection?]
  refine if_congr Iff.rfl rfl ?_
  by_cases hcomment : isComment (Text.trim Text.isWhite text) = true
  · rw [if_pos hcomment, read_of_blank_or_comment (.inr hcomment)]
    rfl
  · rw [if_neg hcomment, ← message?_read_trim config.duplicates ⟨0, 0⟩ id text]
    cases read config.duplicates ⟨0, 0⟩ (Text.trim Text.isWhite text) <;> rfl

/-- A line that can be read is valid exactly if it is long enough. -/
theorem isValid_iff_of_read_eq_ok {config : ParserConfig} {id : RuleId} {text : Text}
    {held : Option Rule} (h : read config.duplicates id text = .ok held) :
    isValid config text = true ↔
      config.minRuleLength ≤ Text.byteLength (Text.trim Text.isWhite text) := by
  rw [isValid, objection?_eq config id text, h, ← Nat.not_lt]
  split
  · rename_i hshort
    exact iff_of_false Bool.false_ne_true (not_not_intro hshort)
  · rename_i hlong
    exact iff_of_true rfl hlong

end Rule

end ContentFilter
