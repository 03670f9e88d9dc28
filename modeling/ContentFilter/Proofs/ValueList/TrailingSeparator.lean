import ContentFilter.Proofs.ValueList.Grammar

/-!
# Separators at the end of a list

A list is looked at from its end before it is cut, and the two do not agree on what a separator is.
The cut lets a separator be that a backslash directly precedes. The look at the end does not see the
backslash: whichever separator ends the text, but for blanks, the list is refused
(`parse_of_endsBehind`), and it is refused for this reason in no other case.

So the texts in which the two agree are those that do not end with an escaped separator
(`refusesEnd_iff`). One that does is a list all of whose pieces may be items.
-/

set_option autoImplicit false

namespace ContentFilter

theorem Separator.isBlank_char (s : Separator) : Text.isBlank s.char = false := by
  cases s <;> decide

namespace ValueList

/-- A separator ends a text, the blanks behind it apart, and `front` stands before it. -/
def EndsBehind (separator : Separator) (text front : Text) : Prop :=
  ∃ tail, text = front ++ separator.char :: tail ∧ ∀ c ∈ tail, Text.isBlank c = true

/-- The separator that ends a text has no backslash directly before it. -/
def EndsUnescaped (separator : Separator) (text : Text) : Prop :=
  ∃ front, EndsBehind separator text front ∧ front.getLast? ≠ some '\\'

/-- The separator that ends a text has a backslash directly before it. -/
def EndsEscaped (separator : Separator) (text : Text) : Prop :=
  ∃ front, EndsBehind separator text front ∧ front.getLast? = some '\\'

/-- The list is refused for a separator at its end. -/
def RefusesEnd (separator : Separator) (text : Text) : Prop :=
  ∃ span, parse separator (.whole text) = .error ⟨.separatorAtEnd, span⟩

variable {separator : Separator} {text front : Text}

/-! ## Pieces are refused for other reasons -/

/-- No piece is at fault for a separator at the end of the list. -/
theorem fault_ne_separatorAtEnd (separator : Separator) (piece : Text) (isLast : Bool) :
    fault separator piece isLast ≠ .separatorAtEnd := by
  rw [fault]
  grind

/-- No item is refused for a separator at the end of the list. -/
theorem cause_of_readItem_ne {total : Nat} {piece : Fragment} {e : SyntaxError}
    (h : readItem total piece = .error e) : e.cause ≠ .separatorAtEnd := by
  have hlast : piece.stop < total ↔ (!decide (piece.stop < total)) = false := by simp
  rw [(@fault_of_readItem .comma total piece _ hlast e h).1]
  exact fault_ne_separatorAtEnd _ _ _

theorem cause_of_readItems_ne {total : Nat} {pieces : List Fragment} {e : SyntaxError}
    (h : readItems total pieces = .error e) : e.cause ≠ .separatorAtEnd := by
  rw [readItems_eq_mapM] at h
  obtain ⟨piece, -, hpiece⟩ := Reading.exists_mem_of_mapM_eq_error h
  exact cause_of_readItem_ne hpiece

/-! ## The end of the text -/

/-- Without the blanks at its end, a text ends in the separator that ends it. -/
theorem dropTailWhile_of_endsBehind (h : EndsBehind separator text front) :
    Text.dropTailWhile Text.isBlank text = front ++ [separator.char] := by
  obtain ⟨tail, rfl, htail⟩ := h
  have hsplit : front ++ separator.char :: tail = front ++ [separator.char] ++ tail := by simp
  rw [hsplit, Text.dropTailWhile_append_of_pos _ htail]
  refine Text.dropTailWhile_of_getLast? fun c hc => ?_
  rw [List.getLast?_concat, Option.some.injEq] at hc
  rw [← hc]
  exact separator.isBlank_char

/-- What stands before the last separator is determined by the text. -/
theorem EndsBehind.unique {front' : Text} (h : EndsBehind separator text front)
    (h' : EndsBehind separator text front') : front = front' := by
  have hsame := dropTailWhile_of_endsBehind h
  rw [dropTailWhile_of_endsBehind h'] at hsame
  exact (List.append_cancel_right hsame).symm

/-- **The refusal**, whether or not the separator is escaped. -/
theorem parse_of_endsBehind (h : EndsBehind separator text front) :
    parse separator (.whole text) = .error ⟨.separatorAtEnd, .point (Text.byteLength front)⟩ := by
  have hcore : (Fragment.whole text).trimEnd Text.isBlank = ⟨0, front ++ [separator.char]⟩ :=
    congrArg (Fragment.mk 0) (dropTailWhile_of_endsBehind h)
  have hsize : separator.char.utf8Size = 1 := by cases separator <;> decide
  rw [parse, hcore]
  simp [refuse, Fragment.stop, Span.point, hsize]

/-- A list is refused for its end exactly if a separator ends it, escaped or not. -/
theorem refusesEnd_iff_exists_endsBehind :
    RefusesEnd separator text ↔ ∃ front, EndsBehind separator text front := by
  constructor
  · rintro ⟨span, h⟩
    obtain ⟨tail, hsplit, htail⟩ := Text.exists_dropTailWhile_append (p := Text.isBlank) text
    have hcore : ((Fragment.whole text).trimEnd Text.isBlank).text =
        Text.dropTailWhile Text.isBlank text := rfl
    rw [parse, hcore] at h
    cases hlast : (Text.dropTailWhile Text.isBlank text).getLast? with
    | none =>
      rw [hlast] at h
      cases h
    | some c =>
      rw [hlast] at h
      dsimp only at h
      split at h
      · rename_i hc
        obtain ⟨front, hfront⟩ := List.getLast?_eq_some_iff.mp hlast
        refine ⟨front, tail, ?_, htail⟩
        rw [hsplit, hfront, hc]
        simp
      · exact absurd rfl (cause_of_readItems_ne h)
  · rintro ⟨front, hfront⟩
    exact ⟨_, parse_of_endsBehind hfront⟩

/-- **The end of a list.** A list is refused for a separator at its end exactly if there is one, at
the place where it stands. That comes to the same as refusing the unescaped ones, unless the text
ends with an escaped one. -/
theorem refusesEnd_iff (separator : Separator) (text : Text) :
    (RefusesEnd separator text ↔ ∃ front, EndsBehind separator text front) ∧
    (∀ front, EndsBehind separator text front →
      parse separator (.whole text) =
        .error ⟨.separatorAtEnd, .point (Text.byteLength front)⟩) ∧
    ((RefusesEnd separator text ↔ EndsUnescaped separator text) ↔
      ¬ EndsEscaped separator text) := by
  refine ⟨refusesEnd_iff_exists_endsBehind, fun front => parse_of_endsBehind, ?_⟩
  rw [refusesEnd_iff_exists_endsBehind]
  constructor
  · rintro hagree ⟨front, hfront, hescaped⟩
    obtain ⟨front', hfront', hplain⟩ := hagree.mp ⟨front, hfront⟩
    rw [hfront'.unique hfront] at hplain
    exact hplain hescaped
  · intro hnone
    constructor
    · rintro ⟨front, hfront⟩
      exact ⟨front, hfront, fun hescaped => hnone ⟨front, hfront, hescaped⟩⟩
    · rintro ⟨front, hfront, -⟩
      exact ⟨front, hfront⟩

/-- A text that ends with a separator and blanks. No backslash stands there, so the refusal is as it
should be. -/
theorem refusesEnd_iff_blankEnd :
    EndsBehind .pipe "ä\\| \t|\t".toList "ä\\| \t".toList ∧
      parse .pipe (.whole "ä\\| \t|\t".toList) = .error ⟨.separatorAtEnd, ⟨6, 7⟩⟩ ∧
      EndsUnescaped .pipe "ä\\| \t|\t".toList := by
  have hend : EndsBehind .pipe "ä\\| \t|\t".toList "ä\\| \t".toList :=
    ⟨['\t'], rfl, by simp [Text.isBlank]⟩
  have hplain : ¬ EndsEscaped .pipe "ä\\| \t|\t".toList := by
    rintro ⟨front, hfront, hescaped⟩
    rw [hfront.unique hend] at hescaped
    exact absurd hescaped (by decide)
  obtain ⟨hrefuses, hspan, hagree⟩ := refusesEnd_iff .pipe "ä\\| \t|\t".toList
  exact ⟨hend, hspan _ hend, (hagree.mpr hplain).mp (hrefuses.mpr ⟨_, hend⟩)⟩

/-- The one piece of `a\,` is an item, and yet it is no list. -/
theorem exists_escaped_refused :
    EndsEscaped .comma "a\\,".toList ∧ ¬ EndsUnescaped .comma "a\\,".toList ∧
      Fragment.FallsInto ',' (.whole "a\\,".toList) [.whole "a\\,".toList] ∧
      IsItem "a\\,".toList ∧ RefusesEnd .comma "a\\,".toList := by
  have hfront : EndsBehind .comma "a\\,".toList ['a', '\\'] := ⟨[], rfl, by simp⟩
  refine ⟨⟨_, hfront, rfl⟩, ?_, ?_, ?_, ⟨_, parse_of_endsBehind hfront⟩⟩
  · rintro ⟨front, hother, hplain⟩
    rw [hother.unique hfront] at hplain
    exact hplain rfl
  · exact .last (by decide)
  · refine ⟨"a\\,".toList, false, rfl, by decide, fun c hc => ?_⟩
    obtain rfl := Option.some.inj hc
    decide

end ValueList

end ContentFilter
