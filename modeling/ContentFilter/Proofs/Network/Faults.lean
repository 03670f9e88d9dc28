import ContentFilter.Proofs.Modifier.Faults
import ContentFilter.Proofs.Network.Steps
import ContentFilter.Proofs.ValueList.Faults

/-!
# Errors in network rules

A network rule is refused for its modifier block, for a pattern that it lacks, or for the value of
one of its modifiers. The last of these comes up when the modifiers are applied, long after their
tokens were read, and points into the text because the modifiers in a map are written there.

The block is opened by the last sign that no backslash precedes in what stands behind the mark of an
exception. Neither that mark nor white space ends with a backslash, so none precedes the sign in the
text either.
-/

set_option autoImplicit false

namespace ContentFilter

variable {text before after : Text}

/-! ## Applying modifiers -/

namespace Modifier

/-- The scope that the value of a modifier lists is read soundly. -/
theorem WrittenIn.sound_readScope {m : Modifier} (h : m.WrittenIn text) :
    Reading.Sound text (fun _ => True) m.readScope := by
  obtain ⟨before, token, after, hm⟩ := h
  rw [readScope]
  cases hvalue : m.value with
  | none => trivial
  | some list =>
    obtain ⟨front, back, hlist⟩ := hm.value list hvalue
    exact (ValueList.sound_parse hlist).map fun _ _ => trivial

/-- The effect of a modifier is had soundly. -/
theorem WrittenIn.sound_effect {m : Modifier} (h : m.WrittenIn text) (allowlist : Bool) :
    Reading.Sound text (fun _ => True) (m.effect allowlist) := by
  have hscope := h.sound_readScope
  have hvalue : Reading.Sound text (fun _ : Effect => True)
      (refuse (.modifierValueRequired m.name) m.span) := by
    apply h.sound_refuse
    intro before token after hm
    exact ⟨hm.isToken, m.negated, hm.names⟩
  obtain ⟨kind, name, value, negated, span⟩ := m
  cases kind with
  | domain | app | method => exact hscope.map fun _ _ => trivial
  | replace =>
    simp only [effect]
    split
    · exact hvalue
    · trivial
  | _ => trivial

end Modifier

namespace NetworkRule

/-- Applying modifiers is sound. -/
theorem sound_applyAll (r : NetworkRule) {modifiers : List Modifier}
    (h : ∀ m ∈ modifiers, m.WrittenIn text) :
    Reading.Sound text (fun _ => True) (r.applyAll modifiers) := by
  induction modifiers generalizing r with
  | nil => trivial
  | cons m modifiers ih =>
    have hm := h m List.mem_cons_self
    have happly : Reading.Sound text (fun _ => True) (r.apply m) :=
      (hm.sound_effect r.allowlist).map fun _ _ => trivial
    rw [applyAll]
    refine happly.bind fun r' _ => ?_
    exact ih r' fun m' hm' => h m' (List.mem_cons_of_mem _ hm')

/-! ## The rule -/

/-- The block of a network rule stands in it as a block. -/
theorem isBlock_of_ofBody {allowlist : Bool} {body block : Fragment}
    (h : body.StandsIn text before after) (hbefore : before.getLast? ≠ some '\\')
    (hafter : Text.AllWhite after) (hblock : (Parts.ofBody allowlist body).block = some block) :
    ∃ before' after', block.StandsIn text before' after' ∧
      IsBlock before' block.text after' := by
  rw [Parts.ofBody] at hblock
  split at hblock
  · rename_i pattern inside hsplit
    obtain rfl := Option.some.inj hblock
    split at hsplit
    · cases hsplit
    · obtain ⟨-, hlast, -, hstands⟩ := h.splitLast? hsplit
      refine ⟨_, _, hstands, ⟨before ++ pattern.text, rfl, ?_⟩, .inl hafter⟩
      -- In front of the sign stands the pattern or, if it is empty, what stands before the body.
      rw [List.getLast?_append]
      cases hpattern : pattern.text.getLast? with
      | none => exact hbefore
      | some c => rwa [hpattern] at hlast
  · cases hblock

/-- The block of a network rule stands in the line as a block. -/
theorem isBlock_of_ofFragment {rule block : Fragment} (h : rule.StandsIn text before after)
    (hbefore : Text.AllWhite before) (hafter : Text.AllWhite after)
    (hblock : (Parts.ofFragment rule).block = some block) :
    ∃ before' after', block.StandsIn text before' after' ∧
      IsBlock before' block.text after' := by
  rw [Parts.ofFragment] at hblock
  cases hmark : rule.strip? allowlistMark with
  | some body =>
    rw [hmark] at hblock
    refine isBlock_of_ofBody (h.strip? hmark).2 ?_ hafter hblock
    rw [List.getLast?_append_of_ne_nil _ (by decide)]
    decide
  | none =>
    rw [hmark] at hblock
    exact isBlock_of_ofBody h (hbefore.getLast?_ne (by decide)) hafter hblock

/-- The modifiers of a network rule are read soundly. -/
theorem sound_readModifiers (policy : DuplicatePolicy) {rule : Fragment}
    (h : rule.StandsIn text before after) (hbefore : Text.AllWhite before)
    (hafter : Text.AllWhite after) :
    Reading.Sound text (·.WrittenIn text) (readModifiers policy (Parts.ofFragment rule)) := by
  rw [readModifiers]
  split
  · rename_i block hblock
    obtain ⟨front, back, hstands, hinside⟩ := isBlock_of_ofFragment h hbefore hafter hblock
    exact ModifierMap.sound_parse _ policy hstands hinside
  · exact ModifierMap.writtenIn_empty

/-- **One network rule.** `rule` is the whole of a line but for the white space around it. -/
theorem sound_parse (policy : DuplicatePolicy) (id : RuleId) {rule : Fragment}
    (h : rule.StandsIn text before after) (hbefore : Text.AllWhite before)
    (hafter : Text.AllWhite after) (hrule : rule.text = Text.trim Text.isWhite text) :
    Reading.Sound text (fun _ => True) (parse policy id rule) := by
  rw [parse_eq]
  refine (sound_readModifiers policy h hbefore hafter).bind fun modifiers hmodifiers => ?_
  split
  · refine .refuse h ?_
    show rule.text = Text.trim Text.isWhite (before ++ rule.text ++ after)
    rw [← h.text_eq, hrule]
  · exact sound_applyAll _ hmodifiers

end NetworkRule

end ContentFilter
