import ContentFilter.Proofs.Reading
import ContentFilter.Proofs.ValueList.Entries

/-!
# Writing a list and reading it again

A list that was read holds values whose own separators are escaped, so writing them side by
side should give the same list. It does, with one exception. Blanks around a value are dropped,
and they may be all that stands between a value that ends in a backslash and the separator
behind it. Written again without them, the backslash escapes the separator, and the value takes
the next one along.

`parse_join_iff` is the general law: among entries that can be written at all, exactly those
lists come back in which no value but the last ends in a backslash. `writable_of_parse` says
that the entries of a list that was read can be written. Together they say which entries come back
of all that do not end with a separator (`parse_join_eq_self_iff`).
-/

set_option autoImplicit false

namespace ContentFilter

theorem Separator.exceptionMarker_ne_char (s : Separator) :
    ValueList.exceptionMarker ≠ s.char := by
  cases s <;> decide

namespace ValueList

variable {separator : Separator}

/-- Entries whose written form is not cut within a value and does not look unfinished. -/
structure Writable (separator : Separator) (entries : List (Text × Bool)) : Prop where
  /-- Every value is one, and the separators in it are escaped. -/
  value : ∀ e ∈ entries, IsValue e.1 ∧ Text.Guarded separator.char e.1
  /-- The last value does not end with the separator. -/
  last : ∀ e, entries.getLast? = some e → e.1.getLast? ≠ some separator.char

/-! ## From entries to their written forms -/

/-- The written form of an entry is cut no more than its value is. -/
theorem guarded_write_iff {entry : Text × Bool} :
    Text.Guarded separator.char (write entry) ↔ Text.Guarded separator.char entry.1 := by
  obtain ⟨value, exception⟩ := entry
  cases exception with
  | false => rfl
  | true =>
    have hmark := separator.exceptionMarker_ne_char
    have hescape : some exceptionMarker ≠ some '\\' := by decide
    rw [Text.guarded_iff_unbroken, ← Text.unbroken_unescaped_iff hescape]
    show Text.Unbroken _ none (exceptionMarker :: value) ↔ _
    rw [Text.unbroken_cons]
    simp [Text.unescaped, hmark]

/-- The written form of an entry ends in a backslash if its value does. -/
theorem endsInBackslash_write {entry : Text × Bool} (h : IsValue entry.1) :
    Text.endsInBackslash (write entry) = Text.endsInBackslash entry.1 := by
  rw [Text.endsInBackslash, Text.endsInBackslash, getLast?_write h]

theorem join_eq_join_write (entries : List (Text × Bool)) :
    join separator entries = Text.join [separator.char] (entries.map write) := rfl

/-- What a written list ends with is what its last value ends with. -/
theorem getLast?_join {front : List (Text × Bool)} {entry : Text × Bool} (h : IsValue entry.1) :
    (join separator (front ++ [entry])).getLast? = entry.1.getLast? := by
  obtain ⟨s, hs⟩ :=
    Text.exists_join_concat [separator.char] (front.map write) (write entry)
  rw [join_eq_join_write, List.map_append, List.map_singleton, hs,
    List.getLast?_append_of_ne_nil _ (write_ne_nil h), getLast?_write h]

/-! ## Cutting a written list -/

section Cut

variable {entries : List (Text × Bool)} (h : Writable separator entries)

include h

/-- No written entry of a writable list is cut. -/
theorem guarded_of_mem_map_write {t : Text} (ht : t ∈ entries.map write) :
    Text.Guarded separator.char t := by
  obtain ⟨e, he, rfl⟩ := List.mem_map.mp ht
  exact guarded_write_iff.mpr (h.value e he).2

/-- The pieces are the written entries, if no separator is escaped by the value before it. -/
theorem cut_join_write (hne : entries ≠ [])
    (hfront : ∀ e ∈ entries.dropLast, Text.endsInBackslash e.1 = false) :
    Text.cut (Text.unescaped separator.char) (join separator entries) = entries.map write := by
  rw [join_eq_join_write]
  refine Text.cut_join separator.char_ne_backslash (by simpa using hne)
    (fun t => guarded_of_mem_map_write h) fun t ht => ?_
  rw [← List.map_dropLast] at ht
  obtain ⟨e, he, rfl⟩ := List.mem_map.mp ht
  rw [endsInBackslash_write (h.value e (List.dropLast_subset _ he)).1]
  exact hfront e he

/-- As many pieces as entries: then no separator was escaped. -/
theorem endsInBackslash_of_length_cut
    (hlength : (Text.cut (Text.unescaped separator.char) (join separator entries)).length
      = entries.length) :
    ∀ e ∈ entries.dropLast, Text.endsInBackslash e.1 = false := by
  intro e he
  obtain ⟨p, rest, hwritten⟩ : ∃ p rest, entries.map write = p :: rest := by
    refine List.exists_cons_of_ne_nil fun hnil => ?_
    rw [List.map_eq_nil_iff.mp hnil] at he
    simp at he
  have hcount := Text.length_cut_join separator.char_ne_backslash
    (by rw [← hwritten]; exact fun t => guarded_of_mem_map_write h)
  rw [← List.length_cons, ← hwritten, ← join_eq_join_write, hlength, List.length_map,
    ← List.map_dropLast] at hcount
  have hzero : (entries.dropLast.map write).countP Text.endsInBackslash = 0 := by omega
  rw [List.countP_eq_zero] at hzero
  rw [← endsInBackslash_write (h.value e (List.dropLast_subset _ he)).1, ← Bool.not_eq_true]
  exact hzero _ (List.mem_map_of_mem he)

end Cut

/-! ## The law -/

/-- **Which lists come back.** The entries of a written list are the entries that were written,
unless a value before the last ends in a backslash. -/
theorem parse_join_iff {entries : List (Text × Bool)} (h : Writable separator entries)
    (offset : Nat) :
    (parse separator ⟨offset, join separator entries⟩).map (·.map (·.entry)) = .ok entries ↔
      ∀ e ∈ entries.dropLast, Text.endsInBackslash e.1 = false := by
  rw [parse_entries_iff]
  rcases List.eq_nil_or_concat' entries with hnil | ⟨front, last, hentries⟩
  · subst hnil
    exact iff_of_true (.inl ⟨rfl, rfl⟩) (by simp)
  · have hne : entries ≠ [] := by rw [hentries]; simp
    have hvalue : IsValue last.1 := (h.value last (by rw [hentries]; simp)).1
    have hjoin : (join separator entries).getLast? = last.1.getLast? := by
      rw [hentries]
      exact getLast?_join hvalue
    have hkept : Text.dropTailWhile Text.isBlank (join separator entries)
        = join separator entries := by
      refine Text.dropTailWhile_of_getLast? fun c hc => ?_
      rw [hjoin] at hc
      exact hvalue.last c hc
    rw [hkept, hjoin]
    constructor
    · rintro (⟨-, hnil⟩ | ⟨-, -, -, hread⟩)
      · exact absurd hnil hne
      · exact endsInBackslash_of_length_cut h hread.length_eq
    · intro hfront
      have hc := List.getLast?_eq_some_getLast hvalue.ne_nil
      refine .inr ⟨_, hc, fun hsep => ?_, ?_⟩
      · exact h.last last (by rw [hentries]; simp) (by rw [hc, hsep])
      · rw [cut_join_write h hne hfront, List.forall₂_map_left_iff, List.forall₂_same]
        exact fun e he => writes_write (h.value e he).1

/-! ## What was read can be written -/

/-- A piece of a cut writes an entry whose separators are escaped: what was trimmed away in
front of it is blank, and no blank is a backslash. -/
theorem Writes.guarded {piece : Text} {entry : Text × Bool} (h : Writes piece entry)
    (hpiece : Text.Guarded separator.char piece) : Text.Guarded separator.char entry.1 := by
  obtain ⟨head, tail, hsplit, hhead, -⟩ := Text.exists_trim (p := Text.isBlank) piece
  rw [hsplit] at hpiece
  rw [← guarded_write_iff, ← h.1]
  refine hpiece.inner fun hlast => ?_
  have hblank := hhead '\\' (List.mem_of_getLast? hlast)
  exact absurd hblank (by decide)

/-- The last piece of a text and the last entry that its pieces write belong together. -/
private theorem exists_last_of_forall₂ {α β : Type} {R : α → β → Prop} {as : List α}
    {bs : List β} {b : β} (h : List.Forall₂ R as (bs ++ [b])) :
    ∃ front a, as = front ++ [a] ∧ R a b := by
  have hreverse := List.forall₂_reverse_iff.mpr h
  rw [List.reverse_append, List.reverse_singleton, List.singleton_append,
    List.forall₂_cons_right_iff] at hreverse
  obtain ⟨a, front, hab, -, has⟩ := hreverse
  refine ⟨front.reverse, a, ?_, hab⟩
  rw [← List.reverse_reverse as, has, List.reverse_cons]

/-- The entries of a list that was read can be written. -/
theorem writable_of_parse {list : Fragment} {entries : List (Text × Bool)}
    (h : (parse separator list).map (·.map (·.entry)) = .ok entries) :
    Writable separator entries := by
  rw [parse_entries_iff] at h
  rcases h with ⟨-, rfl⟩ | ⟨c, hc, hsep, hread⟩
  · exact ⟨by simp, by simp⟩
  · refine ⟨fun e he => ?_, fun e he hlast => ?_⟩
    · obtain ⟨piece, hpiece, hwrites⟩ := Reading.exists_mem_of_forall₂ hread he
      exact ⟨hwrites.2, hwrites.guarded
        (Text.guarded_of_mem_cut separator.char_ne_backslash hpiece)⟩
    · -- The text ends with what its last piece ends with, less the blanks.
      obtain ⟨front, rfl⟩ : ∃ front, entries = front ++ [e] :=
        ⟨entries.dropLast, (List.dropLast_append_getLast? e he).symm⟩
      obtain ⟨pieces, piece, hpieces, hwrites⟩ := exists_last_of_forall₂ hread
      have hne : Text.trim Text.isBlank piece ≠ [] := by
        rw [hwrites.1]
        exact write_ne_nil hwrites.2
      obtain ⟨s, hs⟩ := Text.exists_join_concat [separator.char] pieces piece
      rw [← Text.join_cut separator.char_ne_backslash list.text, hpieces, hs,
        Text.getLast?_dropTailWhile_append s hne, hwrites.1, getLast?_write hwrites.2, hlast,
        Option.some.injEq] at hc
      exact hsep hc.symm

/-! ## Reading, writing, reading -/

/-- **Round trip.** A list that was read comes back from its written form exactly if none of its
values but the last ends in a backslash. -/
theorem parse_join_parse_iff {list : Fragment} {items : List ListItem}
    (h : parse separator list = .ok items) (offset : Nat) :
    (parse separator ⟨offset, join separator (items.map (·.entry))⟩).map (·.map (·.entry))
        = .ok (items.map (·.entry)) ↔
      ∀ i ∈ items.dropLast, i.value.getLast? ≠ some '\\' := by
  have hread : (parse separator list).map (·.map (·.entry)) = .ok (items.map (·.entry)) := by
    rw [h]
    rfl
  rw [parse_join_iff (writable_of_parse hread), ← List.map_dropLast, List.forall_mem_map]
  refine forall₂_congr fun i _ => ?_
  rw [Text.endsInBackslash, beq_eq_false_iff_ne]
  rfl

/-- A list with an escaped separator and a backslash at its end is written and read back. -/
theorem parse_join_parse_escaped_comma :
    parse .comma (.whole " a\\,x ,~b\\".toList) =
        .ok [⟨"a\\,x".toList, false, ⟨1, 5⟩⟩, ⟨"b\\".toList, true, ⟨8, 10⟩⟩] ∧
      (parse .comma ⟨0, join .comma [("a\\,x".toList, false), ("b\\".toList, true)]⟩).map
          (·.map (·.entry)) = .ok [("a\\,x".toList, false), ("b\\".toList, true)] := by
  have h : parse .comma (.whole " a\\,x ,~b\\".toList) =
      .ok [⟨"a\\,x".toList, false, ⟨1, 5⟩⟩, ⟨"b\\".toList, true, ⟨8, 10⟩⟩] := by decide
  exact ⟨h, (parse_join_parse_iff h 0).mpr (by decide)⟩

/-- The blank between `a\` and the comma is what kept the comma a separator. -/
theorem parse_join_parse_backslash_blank :
    parse .comma (.whole "a\\ ,b".toList) =
        .ok [⟨"a\\".toList, false, ⟨0, 2⟩⟩, ⟨"b".toList, false, ⟨4, 5⟩⟩] ∧
      join .comma [("a\\".toList, false), ("b".toList, false)] = "a\\,b".toList ∧
      parse .comma (.whole "a\\,b".toList) = .ok [⟨"a\\,b".toList, false, ⟨0, 4⟩⟩] := by
  decide

/-! ## Which entries survive -/

/-- **Writing, reading.** Entries come back from their written form exactly if each is a value whose
own separators are escaped, and no value but the last ends in a backslash. A written list that ends
with a separator is refused as unfinished, so of such a list nothing comes back. -/
theorem parse_join_eq_self_iff {entries : List (Text × Bool)}
    (hlast : ∀ e, entries.getLast? = some e → e.1.getLast? ≠ some separator.char) (offset : Nat) :
    (parse separator ⟨offset, join separator entries⟩).map (·.map (·.entry)) = .ok entries ↔
      (∀ e ∈ entries, IsValue e.1 ∧ Text.Guarded separator.char e.1) ∧
        ∀ e ∈ entries.dropLast, e.1.getLast? ≠ some '\\' := by
  have hback : (∀ e ∈ entries.dropLast, Text.endsInBackslash e.1 = false) ↔
      ∀ e ∈ entries.dropLast, e.1.getLast? ≠ some '\\' := by
    refine forall₂_congr fun e _ => ?_
    rw [Text.endsInBackslash, beq_eq_false_iff_ne]
  rw [← hback]
  constructor
  · intro hread
    have hwritable := writable_of_parse hread
    exact ⟨hwritable.value, (parse_join_iff hwritable offset).mp hread⟩
  · rintro ⟨hvalue, hfront⟩
    exact (parse_join_iff ⟨hvalue, hlast⟩ offset).mpr hfront

/-- Two entries with an escaped separator in the first value and a backslash at the very end. -/
def escapedEntries : List (Text × Bool) := [("ä\\|b,".toList, true), ("c\\".toList, false)]

/-- They come back. With the backslash in front of the separator they do not, and neither does a
value that begins with the marker. -/
theorem parse_join_eq_self_escapedEntries :
    (∀ e, escapedEntries.getLast? = some e → e.1.getLast? ≠ some '|') ∧
      (parse .pipe ⟨7, join .pipe escapedEntries⟩).map (·.map (·.entry)) = .ok escapedEntries ∧
      (parse .pipe ⟨7, join .pipe escapedEntries.reverse⟩).map (·.map (·.entry)) ≠
        .ok escapedEntries.reverse ∧
      (parse .pipe ⟨7, join .pipe [("~b".toList, false)]⟩).map (·.map (·.entry)) ≠
        .ok [("~b".toList, false)] := by
  have hlast : ∀ e, escapedEntries.getLast? = some e → e.1.getLast? ≠ some '|' := by decide
  have hvalues : ∀ e ∈ escapedEntries, IsValue e.1 ∧ Text.Guarded '|' e.1 := by
    simp only [escapedEntries, List.forall_mem_cons]
    refine ⟨⟨⟨by decide, ?_, ?_⟩, by decide⟩, ⟨⟨by decide, ?_, ?_⟩, by decide⟩, by simp⟩
    all_goals
      intro c hc
      obtain rfl := Option.some.inj hc
      decide
  refine ⟨hlast, (parse_join_eq_self_iff hlast 7).mpr ⟨hvalues, by decide⟩, ?_, ?_⟩
  · rw [ne_eq, parse_join_eq_self_iff (by decide) 7]
    rintro ⟨-, hfront⟩
    exact hfront ("c\\".toList, false) (by decide) rfl
  · rw [ne_eq, parse_join_eq_self_iff (by decide) 7]
    rintro ⟨hvalue, -⟩
    have hmarked := (hvalue ("~b".toList, false) (by decide)).1
    exact (hmarked.head '~' rfl).1 rfl

end ValueList

end ContentFilter
