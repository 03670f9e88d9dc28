import ContentFilter.Proofs.SyntaxError.Evidence
import ContentFilter.Proofs.ValueList.Entries

/-!
# Errors in value lists

A value list is refused for what stands at one place in it: a separator at its end, or a piece that
is no item. Pieces are read on their own, and yet their errors are about what they stand next to.
That a separator follows a lone marker, or that there is no value in front of a separator, is seen
from the end of the list alone (`total`). The two agree because a piece that ends before the list
does is followed by a separator, which is what the cut says of it.
-/

set_option autoImplicit false

namespace ContentFilter

theorem Separator.utf8Size_char (s : Separator) : s.char.utf8Size = 1 := by cases s <;> decide

namespace ValueList

section Refusals

variable {α : Type} {P : α → Prop} {text before after : Text} {separator : Separator}

/-- Pointing at one byte is pointing at a character of one byte. -/
theorem sound_refuse_point {c : Char} {offset : Nat}
    (h : (⟨offset, [c]⟩ : Fragment).StandsIn text before after) (hsize : c.utf8Size = 1)
    {cause : Cause} (hcause : cause.ShownBy before [c] after) :
    Reading.Sound text P (refuse cause (.point offset)) := by
  have hspan : Span.point offset = (⟨offset, [c]⟩ : Fragment).span := by
    rw [Span.point, Fragment.span, Fragment.stop, Text.byteLength_cons, hsize, Text.byteLength_nil]
  rw [hspan]
  exact .refuse h hcause

/-- A missing value is reported from where it should be up to the end of the list, of which `back`
is left. -/
theorem sound_refuse_emptyItem {offset total : Nat} {back : Text}
    (h : (⟨offset, []⟩ : Fragment).StandsIn text before (back ++ after))
    (htotal : total = offset + Text.byteLength back)
    (hback : back = [] ∨ ∃ s, back = separator.char :: s) :
    Reading.Sound text P (refuse .emptyItem ⟨offset, total⟩) := by
  have hspan : (⟨offset, total⟩ : Span) = (⟨offset, back⟩ : Fragment).span := by
    rw [htotal]
    rfl
  rw [hspan]
  refine .refuse h.of_nil ?_
  rcases hback with hnil | ⟨s, hs⟩
  · exact .inl hnil
  · exact .inr ⟨separator, by rw [hs]; rfl⟩

end Refusals

variable {text before after : Text} {separator : Separator}

/-- **One item.** Behind the piece that is read, `back` is left of the list. -/
theorem sound_readItem {total : Nat} {piece : Fragment} {back : Text}
    (h : piece.StandsIn text before (back ++ after))
    (htotal : total = piece.stop + Text.byteLength back)
    (hback : back = [] ∨ ∃ s, back = separator.char :: s) :
    Reading.Sound text (fun _ => True) (readItem total piece) := by
  -- The blanks in front of the item are passed over; the end of the piece stays where it is.
  have hopened := h.trimStart Text.isBlank
  have hstop : piece.stop = (piece.trimStart Text.isBlank).stop :=
    (Fragment.stop_after List.takeWhile_append_dropWhile.symm).symm
  rw [hstop] at htotal
  rw [readItem]
  generalize piece.trimStart Text.isBlank = opened at hopened htotal ⊢
  generalize before ++ _ = front at hopened
  obtain ⟨offset, rest⟩ := opened
  cases rest with
  | nil => exact sound_refuse_emptyItem hopened htotal hback
  | cons c rest =>
    by_cases hmark : c = exceptionMarker
    · subst hmark
      have hmarked : exceptionMarker :: rest = [exceptionMarker] ++ rest := rfl
      have hbody := hopened.after_head hmarked
      have hlast : (front ++ [exceptionMarker]).getLast? = some '~' := List.getLast?_concat
      cases rest with
      | nil =>
        show Reading.Sound text _ (if _ then _ else _)
        split
        · -- The list goes on behind the marker, so the piece was cut off there by a separator.
          rename_i hlt
          rcases hback with rfl | ⟨s, rfl⟩
          · rw [htotal] at hlt
            exact absurd hlt (Nat.lt_irrefl _)
          · have hsplit : separator.char :: s = [separator.char] ++ s := rfl
            have hseparator := (hbody.of_nil (x := separator.char :: s)).head hsplit
            exact sound_refuse_point hseparator separator.utf8Size_char ⟨⟨separator, rfl⟩, hlast⟩
        · exact sound_refuse_emptyItem hbody htotal hback
      | cons d rest =>
        have hsplit : d :: rest = [d] ++ rest := rfl
        have hnext := hbody.head hsplit
        show Reading.Sound text _ (if _ then _ else _)
        split
        · rename_i hd
          rw [hd] at hnext
          exact sound_refuse_point hnext (by decide) ⟨rfl, hlast⟩
        · split
          · rename_i hblank
            simp only [Text.isBlank, Bool.or_eq_true, beq_iff_eq] at hblank
            rcases hblank with rfl | rfl
            · exact sound_refuse_point hnext (by decide) ⟨.inl rfl, hlast⟩
            · exact sound_refuse_point hnext (by decide) ⟨.inr rfl, hlast⟩
          · trivial
    · split
      · rename_i heq
        exact absurd (List.cons.inj heq).1 hmark
      · rename_i heq
        cases heq
      · trivial

/-- Reading items is sound if reading each of them is. -/
theorem sound_readItems {total : Nat} {pieces : List Fragment}
    (h : ∀ piece ∈ pieces, Reading.Sound text (fun _ => True) (readItem total piece)) :
    Reading.Sound text (fun _ => True) (readItems total pieces) := by
  induction pieces with
  | nil => trivial
  | cons piece pieces ih =>
    rw [readItems]
    refine (h piece List.mem_cons_self).bind fun item _ => ?_
    have hrest := ih fun p hp => h p (List.mem_cons_of_mem _ hp)
    exact hrest.bind fun items _ => trivial

/-- **One list.** It is refused for its last separator or for one of its pieces. -/
theorem sound_parse {list : Fragment} (h : list.StandsIn text before after) :
    Reading.Sound text (fun _ => True) (parse separator list) := by
  have hitems : Reading.Sound text (fun _ => True)
      (readItems list.stop (list.cut separator.char)) := by
    apply sound_readItems
    intro piece hpiece
    obtain ⟨front, back, hsplit, hcut, hstands⟩ := h.cut separator.char_ne_backslash hpiece
    have hback : back = [] ∨ ∃ s, back = separator.char :: s := by
      refine hcut.closed.imp_right ?_
      rintro ⟨s, hs, -⟩
      exact ⟨s, hs⟩
    have htotal : list.stop = piece.stop + Text.byteLength back := by
      rw [Fragment.stop, Fragment.stop, hstands.offset_eq, h.offset_eq, hsplit]
      simp only [Text.byteLength_append]
      omega
    exact sound_readItem hstands htotal hback
  obtain ⟨tail, -, -, hcore⟩ := h.trimEnd Text.isBlank
  rw [parse]
  generalize list.trimEnd Text.isBlank = core at hcore ⊢
  cases hlast : core.text.getLast? with
  | none => trivial
  | some c =>
    show Reading.Sound text _ (if _ then _ else _)
    split
    · rename_i hc
      obtain ⟨front, hfront⟩ := List.getLast?_eq_some_iff.mp hlast
      rw [hc] at hfront
      have hseparator := hcore.after_head hfront
      have hspan : (⟨core.stop - 1, core.stop⟩ : Span)
          = (core.after front [separator.char]).span := by
        rw [Fragment.span, Fragment.stop, Fragment.stop, Fragment.after, hfront,
          Text.byteLength_append, Text.byteLength_cons, separator.utf8Size_char]
        simp only [Text.byteLength_nil, Span.mk.injEq]
        omega
      rw [hspan]
      exact .refuse hseparator ⟨separator, rfl⟩
    · exact hitems

end ValueList

end ContentFilter
