import ContentFilter.Proofs.Fragment.Placement

/-!
# Falling into pieces

What the pieces of a fragment are can be said without the loop that finds them. A fragment without
an unescaped separator is one piece. Any other is a piece up to the first unescaped separator, and
the pieces of what follows it (`FallsInto`). Every fragment falls into pieces in exactly one way,
which is the one that `cut` finds (`fallsInto_iff`).
-/

set_option autoImplicit false

namespace ContentFilter.Fragment

/-- A fragment falls into pieces at every `c` that no backslash directly precedes, and nowhere
else. -/
inductive FallsInto (c : Char) : Fragment → List Fragment → Prop
  | last {f : Fragment} (hguarded : Text.Guarded c f.text) : FallsInto c f [f]
  | piece {f : Fragment} {p t : Text} {rest : List Fragment} (hsplit : f.text = p ++ c :: t)
      (hguarded : Text.Guarded c p) (hlast : p.getLast? ≠ some '\\')
      (hrest : FallsInto c (f.after (p ++ [c]) t) rest) : FallsInto c f (⟨f.offset, p⟩ :: rest)

variable {c : Char} {f : Fragment} {pieces : List Fragment}

/-- Where every `c` is escaped, nothing is cut. -/
theorem cut_of_guarded (h : Text.Guarded c f.text) : f.cut c = [f] := by
  rw [cut, Text.cut_unescaped_of_guarded h]
  rfl

/-- Up to the first unescaped `c` a fragment is one piece. -/
theorem cut_of_first (hc : c ≠ '\\') {p t : Text} (hsplit : f.text = p ++ c :: t)
    (hguarded : Text.Guarded c p) (hlast : p.getLast? ≠ some '\\') :
    f.cut c = ⟨f.offset, p⟩ :: (f.after (p ++ [c]) t).cut c := by
  have hoffset : f.offset + Text.byteLength (p ++ [c]) =
      f.offset + Text.byteLength p + c.utf8Size := by
    rw [Text.byteLength_append, Text.byteLength_cons, Text.byteLength_nil, Nat.add_zero,
      Nat.add_assoc]
  rw [cut, hsplit, Text.cut_unescaped_append hc hguarded hlast, locate, cut, after, hoffset]

/-- **The pieces.** The cut finds them, and there are no others. -/
theorem fallsInto_iff (hc : c ≠ '\\') : FallsInto c f pieces ↔ pieces = f.cut c := by
  constructor
  · intro h
    induction h with
    | last hguarded => exact (cut_of_guarded hguarded).symm
    | piece hsplit hguarded hlast _ ih => rw [cut_of_first hc hsplit hguarded hlast, ih]
  · rintro rfl
    obtain ⟨offset, text⟩ := f
    -- On the text, which gets shorter by one piece and keeps nothing of its offset.
    induction text using Text.cut_unescaped_induction hc generalizing offset with
    | guarded t ht =>
      rw [cut_of_guarded ht]
      exact .last ht
    | append p t hp hlast ih =>
      rw [cut_of_first hc rfl hp hlast]
      exact .piece rfl hp hlast (ih _)

/-- There is always a piece, if only an empty one. -/
theorem FallsInto.ne_nil (h : FallsInto c f pieces) : pieces ≠ [] := by
  cases h <;> exact List.cons_ne_nil _ _

/-- Nothing but separators is lost between the pieces. -/
theorem FallsInto.exists_piece (h : FallsInto c f pieces) {d : Char} (hd : d ∈ f.text)
    (hne : d ≠ c) : ∃ piece ∈ pieces, d ∈ piece.text := by
  induction h with
  | last => exact ⟨_, List.mem_cons_self, hd⟩
  | piece hsplit _ _ _ ih =>
    rw [hsplit, List.mem_append, List.mem_cons] at hd
    rcases hd with hd | hd | hd
    · exact ⟨_, List.mem_cons_self, hd⟩
    · exact absurd hd hne
    · obtain ⟨piece, hpiece, hmem⟩ := ih hd
      exact ⟨piece, List.mem_cons_of_mem _ hpiece, hmem⟩

/-- Pieces end before the fragment does, but for the last one. -/
theorem FallsInto.stop_lt_iff {front back : List Fragment} {piece : Fragment}
    (h : FallsInto c f (front ++ piece :: back)) : piece.stop < f.stop ↔ back ≠ [] := by
  induction front generalizing f with
  | nil =>
    rw [List.nil_append] at h
    cases h with
    | last => exact iff_of_false (Nat.lt_irrefl _) fun hne => hne rfl
    | @piece _ p t _ hsplit _ _ hrest =>
      refine iff_of_true ?_ hrest.ne_nil
      have hsize := c.utf8Size_pos
      rw [stop, stop, hsplit, Text.byteLength_append, Text.byteLength_cons]
      show f.offset + Text.byteLength p < _
      omega
  | cons first front ih =>
    rw [List.cons_append] at h
    generalize hpieces : front ++ piece :: back = pieces at h
    cases h with
    | last => simp at hpieces
    | @piece _ p t _ hsplit _ _ hrest =>
      have hsplit' : f.text = (p ++ [c]) ++ t := by rw [hsplit]; simp
      rw [← hpieces] at hrest
      rw [← stop_after hsplit']
      exact ih hrest

end ContentFilter.Fragment
