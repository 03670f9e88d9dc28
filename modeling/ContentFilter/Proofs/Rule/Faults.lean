import ContentFilter.Proofs.Cosmetic.Faults
import ContentFilter.Proofs.Network.Faults
import ContentFilter.Rule.Reader

/-!
# Errors in rules

A line is trimmed before it is read, and what is read of it passes through up to four readers, each
of which adds where its part begins. `pointsAtCause_of_read` says that the additions are right, for
every line: an error is located in the line as it was given, between two of its characters, and what
stands there shows what is wrong.
-/

set_option autoImplicit false

namespace ContentFilter.Rule

/-- Reading a line is sound. -/
theorem sound_read (policy : DuplicatePolicy) (id : RuleId) (text : Text) :
    Reading.Sound text (fun _ => True) (read policy id text) := by
  obtain ⟨lead, tail, -, hlead, htail, hline⟩ :=
    (Fragment.standsIn_whole text).trim Text.isWhite
  rw [List.nil_append, List.append_nil] at hline
  rw [read]
  show Reading.Sound text _ (if _ then _ else _)
  split
  · trivial
  · split
    · rename_i hmarker
      exact (CosmeticRule.sound_parse policy id hline htail hmarker).map fun _ _ => trivial
    · exact (NetworkRule.sound_parse policy id hline hlead htail rfl).map fun _ _ => trivial

/-- **Errors point at their cause.** A line that is refused is refused with a span that begins and
ends between two characters of the line as given, and what stands there shows the cause. -/
theorem pointsAtCause_of_read {policy : DuplicatePolicy} {id : RuleId} {text : Text}
    {e : SyntaxError} (h : read policy id text = .error e) :
    e.span.start ≤ e.span.stop ∧ e.span.stop ≤ text.utf8Encode.size ∧ e.PointsAtCause text := by
  have hpoints := (sound_read policy id text).pointsAtCause h
  obtain ⟨hstart, hstop⟩ := hpoints.bounds
  exact ⟨hstart, hstop, hpoints⟩

/-- A line with a blank where a domain should be, behind a character of two bytes. -/
def blankDomain : Text := "  @@||ä.de^$domain=a.com|~ b.com ".toList

/-- The error points at the blank, whose place is counted in bytes. -/
theorem pointsAtCause_blankDomain :
    read .lastWins ⟨1, 0⟩ blankDomain = .error ⟨.blankAfterNegation, ⟨27, 28⟩⟩ ∧
      (⟨.blankAfterNegation, ⟨27, 28⟩⟩ : SyntaxError).PointsAtCause blankDomain := by
  have hread : read .lastWins ⟨1, 0⟩ blankDomain
      = .error ⟨.blankAfterNegation, ⟨27, 28⟩⟩ := by rfl
  exact ⟨hread, (pointsAtCause_of_read hread).2.2⟩

end ContentFilter.Rule
