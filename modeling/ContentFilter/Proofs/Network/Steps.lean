import ContentFilter.Proofs.Network.Composition

/-!
# A network rule in steps

A rule is taken apart, its block is read, and the effects of the modifiers are added to the rule
that has only its pattern. A rule without a block has no modifiers and goes the same way.
`parse_eq` puts the reader into this form, and `exists_of_parse` says what there is to be known of a
rule that was read: the modifiers and their effects, all of which were had, and the rule they make.
-/

set_option autoImplicit false

namespace ContentFilter.NetworkRule

/-- The modifiers of the block, none if there is no block. -/
def readModifiers (policy : DuplicatePolicy) (parts : Parts) : Reading ModifierMap :=
  match parts.block with
  | some block => ModifierMap.parse (ruleKinds parts.allowlist) policy block
  | none => .ok {}

/-- Reading a network rule, step by step: its modifiers, the demand for a pattern, and the effects.
-/
theorem parse_eq (policy : DuplicatePolicy) (id : RuleId) (rule : Fragment) :
    parse policy id rule = (do
      let parts := Parts.ofFragment rule
      let modifiers ← readModifiers policy parts
      if parts.pattern.isEmpty && !modifiers.contains .domain then
        refuse .emptyPattern rule.span
      else
        (bare id rule.text parts.pattern parts.allowlist).applyAll modifiers.entries) := by
  rw [parse]
  generalize Parts.ofFragment rule = parts
  obtain ⟨allowlist, pattern, block⟩ := parts
  cases block <;> rfl

variable {policy : DuplicatePolicy} {id : RuleId} {rule : Fragment} {r : NetworkRule}

/-- What a network rule that is read has come from. -/
theorem exists_of_parse (h : parse policy id rule = .ok r) :
    ∃ modifiers es, readModifiers policy (Parts.ofFragment rule) = .ok modifiers ∧
      ((Parts.ofFragment rule).pattern = [] → modifiers.contains .domain = true) ∧
      effects (Parts.ofFragment rule).allowlist modifiers.entries = .ok es ∧
      r = es.foldl add (bare id rule.text (Parts.ofFragment rule).pattern
        (Parts.ofFragment rule).allowlist) := by
  rw [parse_eq] at h
  obtain ⟨modifiers, hmodifiers, h⟩ := Reading.bind_eq_ok_iff.mp h
  split at h
  · exact nomatch h
  · rename_i hpattern
    rw [applyAll_eq_effects] at h
    obtain ⟨es, hes, rfl⟩ := Reading.map_eq_ok_iff.mp h
    refine ⟨modifiers, es, hmodifiers, fun hempty => ?_, hes, rfl⟩
    simpa [hempty] using hpattern

/-- Identity, text, pattern and kind are those of the text that was read. -/
theorem frame_of_parse (h : parse policy id rule = .ok r) :
    r.id = id ∧ r.text = rule.text ∧ r.pattern = (Parts.ofFragment rule).pattern ∧
      r.allowlist = (Parts.ofFragment rule).allowlist := by
  obtain ⟨-, es, -, -, -, rfl⟩ := exists_of_parse h
  exact foldl_add_frame _ es

end ContentFilter.NetworkRule
