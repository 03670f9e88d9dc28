import ContentFilter.Proofs.Fragment.Shift
import ContentFilter.ValueList

/-!
# Value lists that move

An item of a list points at its value, and an error at what is wrong, so both move with the list.
Two of the errors are the reason why this is not obvious piece by piece. A missing value is
reported up to the end of the whole list, and a separator at the end is found by counting back from
there. Both ends move as well, and the second of them cannot be less than one byte from the start.
-/

set_option autoImplicit false

namespace ContentFilter.ValueList

variable (base : Nat)

/-- Moving a piece moves its item, or its error. -/
theorem readItem_shift (total : Nat) (piece : Fragment) :
    readItem (total + base) (piece.shift base) =
      (readItem total piece).shift base (ListItem.shift base) := by
  rw [readItem, readItem, Fragment.trimStart_shift]
  generalize piece.trimStart Text.isBlank = opened
  obtain ⟨offset, text⟩ := opened
  rcases text with _ | ⟨c, rest⟩
  · rfl
  · by_cases hmark : c = '~'
    · subst hmark
      simp only [Fragment.text_shift, Fragment.after_shift]
      generalize Fragment.after _ [exceptionMarker] rest = body
      rcases rest with _ | ⟨d, rest⟩
      · -- The marker stands alone. Whether the list goes on behind it does not depend on where
        -- the list begins.
        have hmore : body.offset + base < total + base ↔ body.offset < total :=
          Nat.add_lt_add_iff_right
        simp only [Fragment.offset_shift, Span.point_add, hmore]
        split <;> rfl
      · simp only [Fragment.offset_shift, Span.point_add]
        by_cases hd : d = exceptionMarker
        · simp only [if_pos hd]
          rfl
        · by_cases hblank : Text.isBlank d = true
          · simp only [if_neg hd, if_pos hblank]
            rfl
          · simp only [if_neg hd, if_neg hblank, Fragment.trimEnd_shift, Fragment.span_shift]
            rfl
    · simp only [Fragment.text_shift, Fragment.trimEnd_shift, Fragment.span_shift]
      rfl

/-- Moving pieces moves their items, or their error. -/
theorem readItems_shift (total : Nat) (pieces : List Fragment) :
    readItems (total + base) (pieces.map (Fragment.shift base)) =
      (readItems total pieces).shift base (List.map (ListItem.shift base)) := by
  induction pieces with
  | nil => rfl
  | cons piece pieces ih =>
    rw [List.map_cons, readItems, readItems, readItem_shift, ih]
    refine Reading.shift_bind base fun item => ?_
    exact Reading.shift_bind base fun items => rfl

/-- **One list.** -/
theorem parse_shift (separator : Separator) (list : Fragment) :
    parse separator (list.shift base) =
      (parse separator list).shift base (List.map (ListItem.shift base)) := by
  rw [parse, parse, Fragment.trimEnd_shift, Fragment.stop_shift base list, Fragment.cut_shift,
    readItems_shift]
  generalize hcore : list.trimEnd Text.isBlank = core
  rw [Fragment.text_shift, Fragment.stop_shift]
  cases hlast : core.text.getLast? with
  | none => rfl
  | some c =>
    by_cases hc : c = separator.char
    · -- The separator takes at least one byte, so counting back stays within the list.
      obtain ⟨front, hfront⟩ := List.getLast?_eq_some_iff.mp hlast
      have hsize : 1 ≤ core.stop := by
        have hone := Char.utf8Size_pos c
        rw [Fragment.stop, hfront, Text.byteLength_append, Text.byteLength_cons]
        omega
      have hstart : core.stop + base - 1 = core.stop - 1 + base := by omega
      simp only [if_pos hc, hstart]
      rfl
    · simp only [if_neg hc]

end ContentFilter.ValueList
