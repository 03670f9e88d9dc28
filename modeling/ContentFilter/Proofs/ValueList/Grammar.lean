import ContentFilter.Proofs.Fragment.Cutting
import ContentFilter.Proofs.Reading
import ContentFilter.Proofs.ValueList.Entries

/-!
# The grammar of value lists

A value list is its pieces (`Fragment.FallsInto`), each of which is an item if it is a value or a
marker and a value, less the blanks around it (`IsItem`). That is all there is to being a list, for
a text that does not end with a separator; a text of blanks is the empty list, and has no pieces.

A list is read from the left, so the first piece that is no item decides what is wrong. Such a piece
is blank, or it begins with a marker, and then the character behind the marker says it all
(`fault`). That character may be the separator that ends the piece, which the piece does not hold;
it is there if another piece follows.
-/

set_option autoImplicit false

namespace ContentFilter

/-- The last character of a text, the blanks at its end apart. -/
def Text.EndsWith (t : Text) (c : Char) : Prop :=
  ∃ front tail, t = front ++ c :: tail ∧ isBlank c = false ∧ ∀ d ∈ tail, isBlank d = true

/-- The last character of a text, the blanks at its end apart, is the last one when they are
trimmed. -/
theorem Text.EndsWith.getLast?_dropTailWhile {t : Text} {c : Char} (h : t.EndsWith c) :
    (dropTailWhile isBlank t).getLast? = some c := by
  obtain ⟨front, tail, rfl, hc, htail⟩ := h
  have hkept : dropTailWhile isBlank (front ++ [c]) = front ++ [c] := by
    refine dropTailWhile_of_getLast? fun d hd => ?_
    rw [List.getLast?_concat, Option.some.injEq] at hd
    rwa [← hd]
  have hsplit : front ++ c :: tail = front ++ [c] ++ tail := by simp
  rw [hsplit, dropTailWhile_append_of_pos _ htail, hkept, List.getLast?_concat]

namespace ValueList

/-! ## Items -/

/-- A piece is an item: less the blanks around it, it is a value or a marker and a value. A value
begins with neither a marker nor a blank. -/
def IsItem (piece : Text) : Prop :=
  ∃ value exception, Text.trim Text.isBlank piece = writeItem value exception ∧ value ≠ [] ∧
    ∀ c, value.head? = some c → c ≠ exceptionMarker ∧ Text.isBlank c = false

/-- What has no blanks around it does not end with one, so an item writes an entry. -/
theorem isItem_iff {piece : Text} : IsItem piece ↔ ∃ entry, Writes piece entry := by
  constructor
  · rintro ⟨value, exception, htrim, hne, hhead⟩
    refine ⟨(value, exception), htrim, hne, hhead, fun c hc => ?_⟩
    have hlast : (Text.trim Text.isBlank piece).getLast? = some c := by
      rw [htrim, writeItem]
      split
      · rw [List.getLast?_cons, hc, Option.getD_some]
      · exact hc
    exact Text.not_of_getLast?_dropTailWhile hlast
  · rintro ⟨⟨value, exception⟩, htrim, hvalue⟩
    exact ⟨value, exception, htrim, hvalue.ne_nil, hvalue.head⟩

/-- An item that is read from a piece of a text: it is what the piece writes, and its span cuts its
value out of the text, at the place where it stands in the piece. -/
structure Reads (text : Text) (piece : Fragment) (item : ListItem) : Prop where
  writes : Writes piece.text item.entry
  placed : ∃ before lead tail after, piece.StandsIn text before after ∧
    piece.text = lead ++ item.value ++ tail ∧
    item.span = ⟨Text.byteLength (before ++ lead), Text.byteLength (before ++ lead ++ item.value)⟩

section Piece

variable {total : Nat} {piece : Fragment}

/-- An item says what its piece writes. -/
theorem writes_of_readItem {item : ListItem} (h : readItem total piece = .ok item) :
    Writes piece.text item.entry := by
  rw [← readItem_entry_iff total, h]
  rfl

/-- A piece is an item exactly if it is read. -/
theorem isItem_iff_exists_readItem :
    IsItem piece.text ↔ ∃ item, readItem total piece = .ok item := by
  rw [isItem_iff]
  constructor
  · rintro ⟨entry, hentry⟩
    obtain ⟨item, hitem, -⟩ := Reading.map_eq_ok_iff.mp ((readItem_entry_iff total).mpr hentry)
    exact ⟨item, hitem⟩
  · rintro ⟨item, hitem⟩
    exact ⟨item.entry, writes_of_readItem hitem⟩

/-- Behind the blanks, and behind the marker if there is one, everything up to the blanks at the end
is the value. -/
theorem exists_body_of_readItem {item : ListItem} (h : readItem total piece = .ok item) :
    ∃ lead rest, piece.text = lead ++ rest ∧
      item.value = ((piece.after lead rest).trimEnd Text.isBlank).text ∧
      item.span = ((piece.after lead rest).trimEnd Text.isBlank).span := by
  have hsplit := (List.takeWhile_append_dropWhile (p := Text.isBlank) (l := piece.text)).symm
  rw [readItem, Fragment.trimStart] at h
  generalize piece.text.takeWhile Text.isBlank = blanks at h hsplit
  generalize piece.text.dropWhile Text.isBlank = opened at h hsplit
  split at h
  · rename_i rest hopened
    obtain rfl : opened = exceptionMarker :: rest := hopened
    split at h
    · dsimp only at h
      split at h <;> cases h
    · split at h
      · cases h
      · split at h
        · cases h
        · rename_i c tail _ _
          obtain rfl := Except.ok.inj h
          refine ⟨blanks ++ [exceptionMarker], c :: tail, by rw [hsplit]; simp, ?_⟩
          rw [← Fragment.after_after]
          exact ⟨rfl, rfl⟩
  · cases h
  · obtain rfl := Except.ok.inj h
    exact ⟨blanks, opened, hsplit, rfl, rfl⟩

/-- An item is read from where its piece stands. -/
theorem reads_of_readItem {text before after : Text} (hpiece : piece.StandsIn text before after)
    {item : ListItem} (h : readItem total piece = .ok item) : Reads text piece item := by
  obtain ⟨lead, rest, hsplit, hvalue, hspan⟩ := exists_body_of_readItem h
  obtain ⟨tail, hrest, -, hstands⟩ := (hpiece.after_head hsplit).trimEnd Text.isBlank
  refine ⟨writes_of_readItem h, before, lead, tail, after, hpiece, ?_, ?_⟩
  · rw [hsplit, hvalue, List.append_assoc, ← hrest]
    rfl
  · rw [hspan, hvalue]
    exact hstands.span_eq

end Piece

/-! ## Faults -/

/-- What is wrong with a piece that is no item. The marker that opens it, if there is one, is
followed by a character of the piece or, in front of another piece, by the separator. -/
def fault (separator : Separator) (piece : Text) (isLast : Bool) : Cause :=
  match piece.dropWhile Text.isBlank ++ (if isLast then [] else [separator.char]) with
  | '~' :: next :: _ =>
    if next = exceptionMarker then .multipleNegation
    else if Text.isBlank next then .blankAfterNegation
    else if next = separator.char then .separatorAfterNegation
    else .emptyItem
  | _ => .emptyItem

/-- **One piece** that is refused is refused for its fault, within the piece. -/
theorem fault_of_readItem {separator : Separator} {total : Nat} {piece : Fragment} {isLast : Bool}
    (hlast : piece.stop < total ↔ isLast = false) {e : SyntaxError}
    (h : readItem total piece = .error e) :
    e.cause = fault separator piece.text isLast ∧
      piece.offset ≤ e.span.start ∧ e.span.start ≤ piece.stop := by
  have hsplit := (List.takeWhile_append_dropWhile (p := Text.isBlank) (l := piece.text)).symm
  rw [readItem, Fragment.trimStart] at h
  rw [fault]
  generalize piece.text.takeWhile Text.isBlank = blanks at h hsplit
  generalize piece.text.dropWhile Text.isBlank = opened at h hsplit ⊢
  -- Behind the blanks stands a marker, nothing at all, or the first character of a value.
  split at h
  · rename_i rest hopened
    obtain rfl : opened = exceptionMarker :: rest := hopened
    rw [Fragment.after_after] at h
    have hmarked : piece.text = (blanks ++ [exceptionMarker]) ++ rest := by rw [hsplit]; simp
    have hwithin := Fragment.offset_after_le hmarked
    split at h
    · -- The marker ends the piece, so its place is where the piece ends.
      have hend : (piece.after (blanks ++ [exceptionMarker]) []).offset = piece.stop := by
        rw [← Fragment.stop_after hmarked]
        rfl
      dsimp only at h
      split at h
      · rename_i hlt
        rw [hend, hlast] at hlt
        obtain rfl := Except.error.inj h
        refine ⟨?_, hwithin⟩
        subst hlt
        cases separator <;> rfl
      · rename_i hlt
        rw [hend, hlast, Bool.not_eq_false] at hlt
        obtain rfl := Except.error.inj h
        refine ⟨?_, hwithin⟩
        subst hlt
        rfl
    · -- The character behind the marker is one of the piece, so no separator is looked at.
      dsimp only at h
      split at h
      · rename_i hmark
        obtain rfl := Except.error.inj h
        subst hmark
        exact ⟨rfl, hwithin⟩
      · rename_i hmark
        split at h
        · rename_i hblank
          obtain rfl := Except.error.inj h
          refine ⟨?_, hwithin⟩
          show _ = if _ then _ else _
          rw [if_neg hmark, if_pos hblank]
        · cases h
  · rename_i hopened
    obtain rfl : opened = [] := hopened
    obtain rfl := Except.error.inj h
    refine ⟨?_, Fragment.offset_after_le hsplit⟩
    cases isLast <;> cases separator <;> rfl
  · cases h

/-! ## Lists -/

/-- Items are read one by one. -/
theorem readItems_eq_mapM (total : Nat) (pieces : List Fragment) :
    readItems total pieces = pieces.mapM (readItem total) := by
  induction pieces with
  | nil => rfl
  | cons piece pieces ih => rw [readItems, List.mapM_cons, ih]

/-- A blank list is empty. -/
theorem parse_of_blank {separator : Separator} {list : Fragment}
    (h : ∀ c ∈ list.text, Text.isBlank c = true) : parse separator list = .ok [] := by
  have hnone : (list.trimEnd Text.isBlank).text.getLast? = none := by
    rw [List.getLast?_eq_none_iff]
    exact List.rdropWhile_eq_nil_iff.mpr h
  rw [parse, hnone]

/-- A list that does not end in a separator is read piece by piece. -/
theorem parse_of_endsWith {separator : Separator} {list : Fragment} {last : Char}
    (hlast : list.text.EndsWith last) (hne : last ≠ separator.char) :
    parse separator list = (list.cut separator.char).mapM (readItem list.stop) := by
  have hkept : (list.trimEnd Text.isBlank).text.getLast? = some last := hlast.getLast?_dropTailWhile
  rw [parse, hkept]
  dsimp only
  rw [if_neg hne, readItems_eq_mapM]

/-- **The grammar.** A text of blanks is the empty list. Any other text that does not end with the
separator is a list exactly if its pieces are items, and then the items that are read are those of
the pieces. Otherwise it is refused for the fault of the first piece that is no item, at a place in
that piece. -/
theorem parse_by_pieces (separator : Separator) (text : Text) :
    ((∀ c ∈ text, Text.isBlank c = true) → parse separator (.whole text) = .ok []) ∧
    ∀ last pieces, text.EndsWith last → last ≠ separator.char →
      Fragment.FallsInto separator.char (.whole text) pieces →
        ((∃ items, parse separator (.whole text) = .ok items) ↔
          ∀ piece ∈ pieces, IsItem piece.text) ∧
        (∀ items, parse separator (.whole text) = .ok items →
          List.Forall₂ (Reads text) pieces items) ∧
        ∀ front piece back, pieces = front ++ piece :: back → (∀ p ∈ front, IsItem p.text) →
          ¬ IsItem piece.text →
            ∃ span, parse separator (.whole text) =
                .error ⟨fault separator piece.text back.isEmpty, span⟩ ∧
              piece.offset ≤ span.start ∧ span.start ≤ piece.stop := by
  refine ⟨fun hblank => parse_of_blank hblank, ?_⟩
  intro last pieces hlast hne hpieces
  have hcut := (Fragment.fallsInto_iff separator.char_ne_backslash).mp hpieces
  rw [parse_of_endsWith hlast hne, ← hcut]
  refine ⟨?_, ?_, ?_⟩
  · rw [Reading.exists_mapM_eq_ok_iff]
    exact forall₂_congr fun piece _ => isItem_iff_exists_readItem.symm
  · intro items hitems
    have hplaced : ∀ piece ∈ pieces, ∃ before after, piece.StandsIn text before after := by
      intro piece hpiece
      rw [hcut] at hpiece
      obtain ⟨front, back, -, -, hstands⟩ :=
        (Fragment.standsIn_whole text).cut separator.char_ne_backslash hpiece
      exact ⟨_, _, hstands⟩
    have hread := (List.forall₂_and_left _ _).mpr ⟨hplaced, Reading.mapM_eq_ok_iff.mp hitems⟩
    refine hread.imp ?_
    rintro piece item ⟨⟨before, after, hstands⟩, hitem⟩
    exact reads_of_readItem hstands hitem
  · rintro front piece back rfl hfront hpiece
    cases hread : readItem (Fragment.whole text).stop piece with
    | ok item => exact absurd (isItem_iff_exists_readItem.mpr ⟨item, hread⟩) hpiece
    | error e =>
      have hend : piece.stop < (Fragment.whole text).stop ↔ back.isEmpty = false := by
        rw [hpieces.stop_lt_iff, List.isEmpty_eq_false_iff]
      obtain ⟨hcause, hwithin⟩ := fault_of_readItem hend hread
      refine ⟨e.span, ?_, hwithin⟩
      rw [← hcause]
      refine Reading.mapM_eq_error (fun p hp => ?_) hread
      exact isItem_iff_exists_readItem.mp (hfront p hp)

/-- A list of two items, an escaped separator in the second one. -/
def escapedList : Text := " ä.de ,~b\\,c".toList

/-- The pieces of that list. -/
def escapedListPieces : List Fragment := [⟨0, " ä.de ".toList⟩, ⟨8, "~b\\,c".toList⟩]

/-- A list whose second piece is a marker and whose third one begins with two of them. -/
def loneMarker : Text := "ä.de ,~,~~b ".toList

/-- The pieces of that list. -/
def loneMarkerPieces : List Fragment :=
  [⟨0, "ä.de ".toList⟩, ⟨7, "~".toList⟩, ⟨9, "~~b ".toList⟩]

/-- A blank list, one with an escaped separator, and one with two pieces that are no items. -/
theorem parse_by_pieces_loneMarker :
    parse .comma (.whole [' ', '\t']) = .ok [] ∧
      (escapedList.EndsWith 'c' ∧
        Fragment.FallsInto ',' (.whole escapedList) escapedListPieces ∧
        ∃ items, parse .comma (.whole escapedList) = .ok items ∧
          List.Forall₂ (Reads escapedList) escapedListPieces items) ∧
      loneMarker.EndsWith 'b' ∧ Fragment.FallsInto ',' (.whole loneMarker) loneMarkerPieces ∧
      ∃ span, parse .comma (.whole loneMarker) = .error ⟨.separatorAfterNegation, span⟩ ∧
        7 ≤ span.start ∧ span.start ≤ 8 := by
  have hblank : ∀ c ∈ [' ', '\t'], Text.isBlank c = true := by simp [Text.isBlank]
  refine ⟨(parse_by_pieces .comma _).1 hblank, ?_, ?_⟩
  · have hlast : escapedList.EndsWith 'c' := ⟨" ä.de ,~b\\,".toList, [], rfl, rfl, by simp⟩
    have hpieces : Fragment.FallsInto ',' (.whole escapedList) escapedListPieces :=
      (Fragment.fallsInto_iff (by decide)).mpr (by rfl)
    obtain ⟨-, hread, -⟩ := (parse_by_pieces .comma _).2 'c' _ hlast (by decide) hpieces
    exact ⟨hlast, hpieces, _, rfl, hread _ rfl⟩
  · have hlast : loneMarker.EndsWith 'b' :=
      ⟨"ä.de ,~,~~".toList, [' '], rfl, rfl, by simp [Text.isBlank]⟩
    have hpieces : Fragment.FallsInto ',' (.whole loneMarker) loneMarkerPieces :=
      (Fragment.fallsInto_iff (by decide)).mpr (by rfl)
    have hdomain : IsItem "ä.de ".toList :=
      (@isItem_iff_exists_readItem 14 ⟨0, "ä.de ".toList⟩).mpr ⟨_, rfl⟩
    have hmarker : ¬ IsItem "~".toList := by
      rw [@isItem_iff_exists_readItem 14 ⟨7, "~".toList⟩]
      rintro ⟨item, hitem⟩
      cases hitem
    obtain ⟨-, -, hfault⟩ := (parse_by_pieces .comma _).2 'b' _ hlast (by decide) hpieces
    refine ⟨hlast, hpieces, ?_⟩
    exact hfault [⟨0, "ä.de ".toList⟩] ⟨7, "~".toList⟩ [⟨9, "~~b ".toList⟩] rfl
      (by simpa using hdomain) hmarker

end ValueList

end ContentFilter
