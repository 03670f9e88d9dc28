import ContentFilter.Proofs.Fragment.Placement
import ContentFilter.ValueList
import Mathlib.Data.List.Forall2

/-!
# The entries of a value list

An entry is what an item says, its value and whether it is an exception, without where it
stands. Reading a list is located through and through, since its errors have to point
somewhere; which entries it yields does not depend on that, and `parse_entries_iff` says so: the
entries are those that the pieces of the text write, one for each piece.

A piece writes an entry if it is the written entry with blanks around it and the value
`IsValue`. The second condition is what makes the first one unambiguous. Without it `~a` would
write both the exception `a` and the value `~a`.
-/

set_option autoImplicit false

namespace ContentFilter

theorem Separator.char_ne_backslash (s : Separator) : s.char ≠ '\\' := by cases s <;> decide

/-- What an item says, without where it stands. -/
def ListItem.entry (i : ListItem) : Text × Bool := (i.value, i.exception)

namespace ValueList

/-- A text that can stand in a list as a value. -/
structure IsValue (v : Text) : Prop where
  ne_nil : v ≠ []
  /-- It begins with neither a marker nor a blank. -/
  head : ∀ c, v.head? = some c → c ≠ exceptionMarker ∧ Text.isBlank c = false
  /-- It does not end with a blank. -/
  last : ∀ c, v.getLast? = some c → Text.isBlank c = false

/-- The written form of an entry. -/
def write (entry : Text × Bool) : Text := writeItem entry.1 entry.2

/-- A piece, less the blanks around it, is the written form of an entry. -/
def Writes (piece : Text) (entry : Text × Bool) : Prop :=
  Text.trim Text.isBlank piece = write entry ∧ IsValue entry.1

/-! ## Written entries -/

/-- The first character tells whether what is left of a piece is a value. -/
theorem isValue_dropTailWhile_cons {c : Char} {t : Text} :
    IsValue (Text.dropTailWhile Text.isBlank (c :: t)) ↔
      c ≠ exceptionMarker ∧ Text.isBlank c = false := by
  constructor
  · intro h
    obtain ⟨tail, htail, -⟩ := Text.exists_dropTailWhile_append (p := Text.isBlank) (c :: t)
    cases hkept : Text.dropTailWhile Text.isBlank (c :: t) with
    | nil => exact absurd hkept h.ne_nil
    | cons d rest =>
      rw [hkept, List.cons_append, List.cons.injEq] at htail
      exact h.head c (by rw [hkept, htail.1]; rfl)
  · rintro ⟨hmark, hblank⟩
    have hkept := Text.dropTailWhile_cons (p := Text.isBlank) t hblank
    refine ⟨by rw [hkept]; simp, fun d hd => ?_, fun d => Text.not_of_getLast?_dropTailWhile⟩
    rw [hkept, List.head?_cons, Option.some.injEq] at hd
    rw [← hd]
    exact ⟨hmark, hblank⟩

/-- A text that begins with the marker writes exceptions only. -/
theorem cons_marker_eq_write_iff {v : Text} {entry : Text × Bool} :
    exceptionMarker :: v = write entry ∧ IsValue entry.1 ↔ entry = (v, true) ∧ IsValue v := by
  obtain ⟨value, exception⟩ := entry
  cases exception with
  | true =>
    simp only [write, writeItem, if_true, List.cons.injEq, true_and, Prod.mk.injEq, and_true]
    constructor <;> rintro ⟨rfl, h⟩ <;> exact ⟨rfl, h⟩
  | false =>
    simp only [write, writeItem, Bool.false_eq_true, if_false, Prod.mk.injEq, and_false,
      false_and, iff_false, not_and]
    intro hv h
    exact (h.head exceptionMarker (by rw [← hv]; rfl)).1 rfl

/-- A text that begins otherwise writes no exception. -/
theorem eq_write_iff {v : Text} (hv : v.head? ≠ some exceptionMarker) {entry : Text × Bool} :
    v = write entry ∧ IsValue entry.1 ↔ entry = (v, false) ∧ IsValue v := by
  obtain ⟨value, exception⟩ := entry
  cases exception with
  | true =>
    simp only [write, writeItem, if_true, Prod.mk.injEq, Bool.true_eq_false, and_false,
      false_and, iff_false, not_and]
    intro h
    exact absurd (by rw [h]; rfl) hv
  | false =>
    simp only [write, writeItem, Bool.false_eq_true, if_false, Prod.mk.injEq, and_true]
    constructor <;> rintro ⟨rfl, h⟩ <;> exact ⟨rfl, h⟩

section Written

variable {entry : Text × Bool} (h : IsValue entry.1)

include h

theorem write_ne_nil : write entry ≠ [] := by
  obtain ⟨value, exception⟩ := entry
  cases exception
  · exact h.ne_nil
  · exact List.cons_ne_nil _ _

theorem getLast?_write : (write entry).getLast? = entry.1.getLast? := by
  obtain ⟨value, exception⟩ := entry
  cases exception with
  | false => rfl
  | true =>
    have hlast := List.getLast?_eq_some_getLast h.ne_nil
    show (exceptionMarker :: value).getLast? = value.getLast?
    rw [List.getLast?_cons, hlast, Option.getD_some]

/-- The written form of an entry does not end in a blank. -/
theorem isBlank_getLast?_write {c : Char} (hc : (write entry).getLast? = some c) :
    Text.isBlank c = false := by
  rw [getLast?_write h] at hc
  exact h.last c hc

/-- The written form of an entry has no blanks at its ends. -/
theorem trim_write : Text.trim Text.isBlank (write entry) = write entry := by
  refine Text.trim_of_ends (fun c hc => ?_) (fun c => isBlank_getLast?_write h)
  obtain ⟨value, exception⟩ := entry
  cases exception with
  | false => exact (h.head c hc).2
  | true =>
    have hmark : exceptionMarker = c := by simpa [write, writeItem] using hc
    rw [← hmark]
    decide

theorem writes_write : Writes (write entry) entry := ⟨trim_write h, h⟩

end Written

/-- What is left of a text without blanks around it can stand in a list, unless it holds a marker.
-/
theorem isValue_trim {t : Text} {c : Char} (hc : c ∈ Text.trim Text.isBlank t)
    (hmark : exceptionMarker ∉ t) : IsValue (Text.trim Text.isBlank t) := by
  refine ⟨List.ne_nil_of_mem hc, fun d hd => ⟨?_, Text.not_of_head?_trim hd⟩,
    fun d => Text.not_of_getLast?_dropTailWhile⟩
  rintro rfl
  exact hmark (Text.mem_of_mem_trim (List.mem_of_head? hd))

/-! ## Reading one piece -/

/-- Whichever of two refusals it is, there is no result. -/
private theorem map_ite_refuse_ne {α β : Type} {P : Prop} [Decidable P] {cause₁ cause₂ : Cause}
    {span₁ span₂ : Span} (f : α → β) (b : β) :
    (if P then refuse cause₁ span₁ else refuse cause₂ span₂ : Reading α).map f ≠ .ok b := by
  by_cases hP : P <;> simp [hP, refuse, Except.map]

/-- **One item.** Reading a piece yields the entry that the piece writes, and fails if it writes
none. -/
theorem readItem_entry_iff (total : Nat) {piece : Fragment} {entry : Text × Bool} :
    (readItem total piece).map (·.entry) = .ok entry ↔ Writes piece.text entry := by
  have hfirst : ∀ c rest, (piece.trimStart Text.isBlank).text = c :: rest →
      Text.isBlank c = false := by
    intro c rest hopen
    have hhead := List.head?_dropWhile_not Text.isBlank piece.text
    rw [show piece.text.dropWhile Text.isBlank = c :: rest from hopen] at hhead
    simpa using hhead
  rw [Writes, show Text.trim Text.isBlank piece.text
    = Text.dropTailWhile Text.isBlank (piece.trimStart Text.isBlank).text from rfl, readItem]
  generalize piece.trimStart Text.isBlank = opened at hfirst ⊢
  obtain ⟨offset, text⟩ := opened
  cases text with
  | nil =>
    rw [Text.dropTailWhile_eq_rdropWhile, List.rdropWhile_nil, eq_write_iff (by simp)]
    simp only [refuse, Except.map, reduceCtorEq, false_iff, not_and]
    exact fun _ h => h.ne_nil rfl
  | cons c rest =>
    have hblank : Text.isBlank c = false := hfirst c rest rfl
    by_cases hmark : c = '~'
    · subst hmark
      rw [Text.dropTailWhile_cons _ hblank, show ('~' : Char) = exceptionMarker from rfl,
        cons_marker_eq_write_iff]
      cases rest with
      | nil =>
        have hnone : ¬ IsValue (Text.dropTailWhile Text.isBlank []) := fun h => h.ne_nil rfl
        refine iff_of_false (map_ite_refuse_ne _ _) fun h => hnone h.2
      | cons d rest =>
        rw [isValue_dropTailWhile_cons]
        simp only [exceptionMarker]
        by_cases hd : d = '~'
        · simp [hd, refuse, Except.map]
        · by_cases hb : Text.isBlank d = true
          · simp [hd, hb, refuse, Except.map]
          · simp [hd, hb, Except.map, Fragment.after, Fragment.trimEnd, ListItem.entry, eq_comm]
    · have hhead : (Text.dropTailWhile Text.isBlank (c :: rest)).head? ≠ some exceptionMarker := by
        rw [Text.dropTailWhile_cons _ hblank]
        simpa [exceptionMarker] using hmark
      rw [eq_write_iff hhead, isValue_dropTailWhile_cons]
      simp [hmark, hblank, exceptionMarker, Except.map, Fragment.trimEnd, ListItem.entry, eq_comm]

/-! ## Reading all of them -/

/-- Pieces are read into entries exactly if each writes its entry. -/
theorem readItems_entries_iff (total : Nat) {pieces : List Fragment}
    {entries : List (Text × Bool)} :
    (readItems total pieces).map (·.map (·.entry)) = .ok entries ↔
      List.Forall₂ (fun p entry => Writes p.text entry) pieces entries := by
  induction pieces generalizing entries with
  | nil =>
    rw [List.forall₂_nil_left_iff, readItems]
    simp [Except.map, eq_comm]
  | cons p pieces ih =>
    cases entries with
    | nil =>
      rw [List.forall₂_nil_right_iff, readItems]
      cases readItem total p with
      | error e => simp [bind, Except.bind, Except.map]
      | ok item =>
        cases readItems total pieces <;>
          simp [bind, Except.bind, pure, Except.pure, Except.map]
    | cons entry entries =>
      rw [List.forall₂_cons, ← readItem_entry_iff total, ← ih, readItems]
      cases readItem total p with
      | error e => simp [bind, Except.bind, Except.map]
      | ok item =>
        cases readItems total pieces <;>
          simp [bind, Except.bind, pure, Except.pure, Except.map]

/-- **One list.** A text of blanks has no entries. Any other text must not end, but for blanks,
with a separator, and its entries are those that its pieces write. -/
theorem parse_entries_iff {separator : Separator} {list : Fragment}
    {entries : List (Text × Bool)} :
    (parse separator list).map (·.map (·.entry)) = .ok entries ↔
      (Text.dropTailWhile Text.isBlank list.text = [] ∧ entries = []) ∨
      ∃ c, (Text.dropTailWhile Text.isBlank list.text).getLast? = some c ∧
        c ≠ separator.char ∧
        List.Forall₂ Writes (Text.cut (Text.unescaped separator.char) list.text) entries := by
  have hpieces : List.Forall₂ (fun p entry => Writes p.text entry) (list.cut separator.char) entries
      ↔ List.Forall₂ Writes (Text.cut (Text.unescaped separator.char) list.text) entries := by
    rw [← Fragment.map_text_locate separator.char list.offset (Text.cut _ list.text),
      List.forall₂_map_left_iff]
    rfl
  rw [parse, show (list.trimEnd Text.isBlank).text
    = Text.dropTailWhile Text.isBlank list.text from rfl]
  cases hlast : (Text.dropTailWhile Text.isBlank list.text).getLast? with
  | none =>
    rw [List.getLast?_eq_none_iff] at hlast
    simp [hlast, Except.map, eq_comm]
  | some c =>
    have hne : Text.dropTailWhile Text.isBlank list.text ≠ [] := by
      intro hnil
      rw [hnil] at hlast
      simp at hlast
    by_cases hc : c = separator.char
    · simp [hc, hne, refuse, Except.map]
    · rw [← hpieces, ← readItems_entries_iff list.stop]
      simp [hc, hne]

/-- A text without marker or separator is one entry, unless it is blank. -/
theorem parse_of_not_mem {separator : Separator} {list : Fragment} {c : Char} (hc : c ∈ list.text)
    (hblank : Text.isBlank c = false) (hmark : exceptionMarker ∉ list.text)
    (hseparator : separator.char ∉ list.text) :
    (parse separator list).map (·.map (·.entry)) =
      .ok [(Text.trim Text.isBlank list.text, false)] := by
  have hname := Text.mem_trim hc hblank
  have hlast := List.getLast?_eq_some_getLast (List.ne_nil_of_mem hname)
  have hend := Text.getLast?_dropTailWhile_append (p := Text.isBlank) [] (List.ne_nil_of_mem hname)
  rw [List.nil_append, hlast] at hend
  refine parse_entries_iff.mpr (.inr ⟨_, hend, ?_, ?_⟩)
  · intro heq
    exact hseparator (heq ▸ Text.mem_of_mem_trim (List.mem_of_getLast? hlast))
  · rw [Text.cut_unescaped_of_guarded (Text.guarded_of_not_mem hseparator)]
    exact .cons ⟨rfl, isValue_trim hname hmark⟩ .nil

/-! ## The scope of entries -/

/-- The values of entries, the exceptions apart from the others. -/
def scopeOf (entries : List (Text × Bool)) : Scope where
  permitted := (entries.filter (!·.2)).map (·.1)
  restricted := (entries.filter (·.2)).map (·.1)

/-- The scope of items depends only on what they say. -/
theorem scope_eq_scopeOf (items : List ListItem) : scope items = scopeOf (items.map (·.entry)) := by
  rw [scope, scopeOf, List.filter_map, List.filter_map, List.map_map, List.map_map]
  rfl

end ValueList

end ContentFilter
