import ContentFilter.Proofs.Cosmetic.Shift
import ContentFilter.Proofs.Network.Shift
import ContentFilter.Proofs.Rule.Identity
import ContentFilter.Proofs.SyntaxError.Evidence

/-!
# Lines with white space around them

A line is trimmed before it is read, so white space in front of it only moves the rule that it
holds, and white space behind it is not seen at all. A rule is kept with the trimmed line as its
text. Read again, that text is trimmed already, and it gives the same rule.

All readers below agree on this, and `reading_moves` puts it together: from the list of a modifier
up to the line, each reads the same wherever it reads, and errors, items and modifiers keep their
distance.
-/

set_option autoImplicit false

namespace ContentFilter

/-! ## Trimming with more to trim -/

/-- A text that is not all white space is trimmed to the same fragment whatever white space stands
around it, only moved. -/
theorem Fragment.trim_append_white {u v text : Text} (hu : Text.AllWhite u) (hv : Text.AllWhite v)
    (htext : ¬ Text.AllWhite text) :
    (whole (u ++ text ++ v)).trim Text.isWhite =
      ((whole text).trim Text.isWhite).shift (Text.byteLength u) := by
  obtain ⟨⟨lead, tail, hsplit, hlead, htail, hoffset⟩, hhead, hlast⟩ :=
    trims_trim Text.isWhite (whole text)
  generalize (whole text).trim Text.isWhite = kept at hsplit hoffset hhead hlast
  obtain rfl : text = lead ++ kept.text ++ tail := hsplit
  have hne : kept.text ≠ [] := by
    intro hnil
    rw [hnil, List.append_nil] at htext
    exact htext (Text.AllWhite.append hlead htail)
  -- The white space around the text continues that which is trimmed away from the text itself.
  refine Trims.trim_eq ⟨⟨u ++ lead, tail ++ v, ?_, ?_, ?_, ?_⟩, hhead, hlast⟩ hne
  · simp [whole]
  · exact hu.append hlead
  · exact Text.AllWhite.append htail hv
  · show kept.offset + Text.byteLength u = 0 + Text.byteLength (u ++ lead)
    rw [hoffset, Text.byteLength_append]
    show 0 + Text.byteLength lead + Text.byteLength u = _
    omega

namespace Rule

variable {policy : DuplicatePolicy} {id : RuleId}

/-- **One line.** White space in front of it moves its errors, white space behind it does
nothing. -/
theorem read_append_white (policy : DuplicatePolicy) (id : RuleId) {u v : Text} (text : Text)
    (hu : Text.AllWhite u) (hv : Text.AllWhite v) :
    read policy id (u ++ text ++ v) = (read policy id text).shiftErrors (Text.byteLength u) := by
  by_cases htext : Text.AllWhite text
  · rw [read_of_blank_or_comment (.inl (Text.trim_of_white htext)),
      read_of_blank_or_comment (.inl (Text.trim_of_white ((hu.append htext).append hv)))]
    rfl
  · rw [read, read, Fragment.trim_append_white hu hv htext]
    generalize (Fragment.whole text).trim Text.isWhite = line
    rw [Fragment.text_shift, CosmeticRule.parse_shift, NetworkRule.parse_shift]
    split
    · rfl
    · split
      · exact Reading.shift_map _ fun _ => rfl
      · exact Reading.shift_map _ fun _ => rfl

/-- A line and the text that is kept of it are read alike. -/
theorem read_text {text : Text} {rule : Rule} (h : read policy id text = .ok (some rule)) :
    read policy id rule.text = .ok (some rule) := by
  obtain ⟨head, tail, hsplit, hhead, htail⟩ := Text.exists_trim (p := Text.isWhite) text
  rw [(frame_of_read h).2]
  have hread := read_append_white policy id (Text.trim Text.isWhite text) hhead htail
  rw [← hsplit, h] at hread
  -- Only errors are moved, so what is not an error comes from the trimmed text as it is.
  cases htrimmed : read policy id (Text.trim Text.isWhite text) with
  | error e =>
    rw [htrimmed] at hread
    exact nomatch hread
  | ok rule? =>
    rw [htrimmed] at hread
    exact hread.symm

end Rule

/-- **Reading does not depend on the place.** A list, a modifier block and a page scope that stand
`base` bytes into a text are read as if they stood at its start, but for positions, which are
`base` bytes farther right. White space around a line likewise moves an error and changes nothing
else, and a rule that was read from a line is what its own text is read as. -/
theorem reading_moves :
    (∀ (separator : Separator) (raw : Text) (base : Nat),
      ValueList.parse separator ⟨base, raw⟩ =
        (ValueList.parse separator (.whole raw)).shift base (List.map (ListItem.shift base))) ∧
    (∀ (ruleKinds : RuleKinds) (policy : DuplicatePolicy) (raw : Text) (base : Nat),
      ModifierMap.parse ruleKinds policy ⟨base, raw⟩ =
        (ModifierMap.parse ruleKinds policy (.whole raw)).shift base (ModifierMap.shift base)) ∧
    (∀ (policy : DuplicatePolicy) (raw : Text) (base : Nat),
      PageScope.parse policy ⟨base, raw⟩ =
        (PageScope.parse policy (.whole raw)).shiftErrors base) ∧
    (∀ (policy : DuplicatePolicy) (id : RuleId) (text u v : Text),
      Text.AllWhite u → Text.AllWhite v →
        Rule.read policy id (u ++ text ++ v) =
          (Rule.read policy id text).shiftErrors (Text.byteLength u)) ∧
    (∀ (policy : DuplicatePolicy) (id : RuleId) (text : Text) (rule : Rule),
      Rule.read policy id text = .ok (some rule) →
        Rule.read policy id rule.text = .ok (some rule)) := by
  refine ⟨fun separator raw base => ?_, fun ruleKinds policy raw base => ?_,
    fun policy raw base => ?_, fun policy id text u v => Rule.read_append_white policy id text,
    fun policy id text rule => Rule.read_text⟩
  · rw [Fragment.mk_eq_shift_whole, ValueList.parse_shift]
  · rw [Fragment.mk_eq_shift_whole, ModifierMap.parse_shift]
  · rw [Fragment.mk_eq_shift_whole, PageScope.parse_shift]

/-- A rule that is refused for a blank in the list of its domain modifier, and one that is not. -/
theorem reading_moves_indented :
    Rule.read .reject ⟨1, 0⟩ "\t\u3000||ä.de^$domain=~ b.com\n".toList =
        .error ⟨.blankAfterNegation, ⟨4 + 17, 4 + 18⟩⟩ ∧
      ∃ rule, Rule.read .reject ⟨1, 0⟩ " a.com##.x ".toList = .ok (some rule) ∧
        Rule.read .reject ⟨1, 0⟩ rule.text = .ok (some rule) := by
  obtain ⟨-, -, -, hwhite, htext⟩ := reading_moves
  constructor
  · have hu : Text.AllWhite "\t\u3000".toList := by decide
    have hv : Text.AllWhite "\n".toList := by decide
    have hread : Rule.read .reject ⟨1, 0⟩ "||ä.de^$domain=~ b.com".toList =
        .error ⟨.blankAfterNegation, ⟨17, 18⟩⟩ := by rfl
    have hmoved := hwhite .reject ⟨1, 0⟩ "||ä.de^$domain=~ b.com".toList _ _ hu hv
    rw [hread] at hmoved
    exact hmoved
  · have hread : ∃ rule, Rule.read .reject ⟨1, 0⟩ " a.com##.x ".toList = .ok (some rule) :=
      ⟨_, rfl⟩
    obtain ⟨rule, hrule⟩ := hread
    exact ⟨rule, hrule, htext _ _ _ _ hrule⟩

end ContentFilter
