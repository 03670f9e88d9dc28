import ContentFilter.Proofs.Modifier.Shift
import ContentFilter.Proofs.Network.Steps
import ContentFilter.Proofs.ValueList.Shift

/-!
# Network rules that move

A network rule, like a cosmetic one, does not say where it stood. Its modifiers do, until they are
applied: the value of a modifier is a list that is read at its place, or it is taken into the rule
as a text. So an effect is the same wherever the modifier stands, and the errors of the list that
it reads move.
-/

set_option autoImplicit false

namespace ContentFilter

variable (base : Nat)

namespace Modifier

theorem readScope_shift (m : Modifier) :
    (m.shift base).readScope = m.readScope.shiftErrors base := by
  obtain ⟨kind, name, value, negated, span⟩ := m
  cases value with
  | none => rfl
  | some list =>
    show (ValueList.parse .pipe (list.shift base)).map _ = _
    rw [ValueList.parse_shift]
    refine Reading.shift_map base fun items => ?_
    rw [ValueList.scope, List.filter_map, List.filter_map, List.map_map, List.map_map]
    rfl

/-- Moving a modifier moves the errors of its effect. -/
theorem effect_shift (allowlist : Bool) (m : Modifier) :
    (m.shift base).effect allowlist = (m.effect allowlist).shiftErrors base := by
  have hscope := m.readScope_shift base
  obtain ⟨kind, name, value, negated, span⟩ := m
  cases kind with
  | domain | app | method =>
    show (Modifier.shift base _).readScope.map _ = _
    rw [hscope]
    exact Reading.shift_map base fun _ => rfl
  | replace =>
    have hvalue : (value.map (Fragment.shift base)).map (·.text) = value.map (·.text) := by
      cases value <;> rfl
    simp only [effect, Modifier.shift, hvalue]
    split <;> rfl
  | redirect | redirectRule => cases value <;> rfl
  | _ => rfl

end Modifier

namespace NetworkRule

/-- Moving modifiers moves the errors of applying them. -/
theorem applyAll_shift (r : NetworkRule) (modifiers : List Modifier) :
    r.applyAll (modifiers.map (Modifier.shift base)) =
      (r.applyAll modifiers).shiftErrors base := by
  induction modifiers generalizing r with
  | nil => rfl
  | cons m modifiers ih =>
    have happly : r.apply (m.shift base) = (r.apply m).shiftErrors base := by
      rw [apply, Modifier.effect_shift]
      exact Reading.shift_map base fun _ => rfl
    rw [List.map_cons, applyAll, happly]
    exact Reading.shift_bind base ih

/-- The parts, moved right by `base` bytes. -/
def Parts.shift (parts : Parts) : Parts :=
  { parts with block := parts.block.map (Fragment.shift base) }

theorem Parts.ofBody_shift (allowlist : Bool) (body : Fragment) :
    ofBody allowlist (body.shift base) = (ofBody allowlist body).shift base := by
  rw [ofBody, ofBody, Fragment.text_shift, Fragment.splitLast?_shift]
  by_cases hslashes : isBetweenSlashes body.text = true
  · rw [if_pos hslashes, if_pos hslashes]
    rfl
  · rw [if_neg hslashes, if_neg hslashes]
    cases body.splitLast? blockOpening <;> rfl

/-- Moving a network rule moves its parts. -/
theorem Parts.ofFragment_shift (rule : Fragment) :
    ofFragment (rule.shift base) = (ofFragment rule).shift base := by
  rw [ofFragment, ofFragment, Fragment.strip?_shift, ofBody_shift]
  cases rule.strip? allowlistMark with
  | none => rfl
  | some body => exact ofBody_shift base true body

/-- **One network rule.** -/
theorem parse_shift (policy : DuplicatePolicy) (id : RuleId) (rule : Fragment) :
    parse policy id (rule.shift base) = (parse policy id rule).shiftErrors base := by
  rw [parse_eq, parse_eq, Parts.ofFragment_shift]
  have hmodifiers : ∀ parts : Parts, readModifiers policy (parts.shift base) =
      (readModifiers policy parts).shift base (ModifierMap.shift base) := by
    rintro ⟨allowlist, pattern, block⟩
    cases block with
    | none => rfl
    | some block => exact ModifierMap.parse_shift base _ policy block
  simp only [hmodifiers]
  refine Reading.shift_bind base fun modifiers => ?_
  rw [ModifierMap.contains_shift, Fragment.span_shift]
  obtain ⟨allowlist, pattern, block⟩ := Parts.ofFragment rule
  simp only [Parts.shift, ModifierMap.shift, applyAll_shift]
  split <;> rfl

end NetworkRule

end ContentFilter
