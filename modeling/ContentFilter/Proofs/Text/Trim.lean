import ContentFilter.Text.Basic
import Mathlib.Data.List.DropRight

/-!
# What trimming leaves

Trimming takes a text apart into a blank head, what is left, and a blank tail. What is left
begins and ends with a character that is not blank, or is empty, and trimming it again changes
nothing. Dropping a tail is `List.rdropWhile`; the lemmas here say about it what concerns the
last character, which is the one the readers look at.
-/

set_option autoImplicit false

namespace ContentFilter.Text

variable {p : Char → Bool}

/-! ## The tail -/

theorem dropTailWhile_eq_rdropWhile (t : Text) : dropTailWhile p t = t.rdropWhile p := rfl

/-- A text is what dropping its tail leaves, and a tail of dropped characters. -/
theorem exists_dropTailWhile_append (t : Text) :
    ∃ tail, t = dropTailWhile p t ++ tail ∧ ∀ c ∈ tail, p c = true :=
  ⟨t.rtakeWhile p, List.rdropWhile_append_rtakeWhile.symm, fun _ => List.mem_rtakeWhile_imp⟩

/-- What is trimmed at the end does not end in a character to be trimmed. -/
theorem not_of_getLast?_dropTailWhile {t : Text} {c : Char}
    (h : (dropTailWhile p t).getLast? = some c) : p c = false := by
  have hne : dropTailWhile p t ≠ [] := by
    intro hnil
    rw [hnil] at h
    simp at h
  have hlast := List.rdropWhile_last_not p t hne
  rw [List.getLast?_eq_some_getLast hne, Option.some.injEq] at h
  rw [← h]
  simpa [dropTailWhile_eq_rdropWhile] using hlast

theorem dropTailWhile_of_getLast? {t : Text} (h : ∀ c, t.getLast? = some c → p c = false) :
    dropTailWhile p t = t := by
  rw [dropTailWhile_eq_rdropWhile, List.rdropWhile_eq_self_iff]
  intro hne
  rw [h _ (List.getLast?_eq_some_getLast hne)]
  exact Bool.false_ne_true

/-- A tail of dropped characters makes no difference. -/
theorem dropTailWhile_append_of_pos {tail : Text} (t : Text) (h : ∀ c ∈ tail, p c = true) :
    dropTailWhile p (t ++ tail) = dropTailWhile p t := by
  rw [dropTailWhile, List.reverse_append,
    List.dropWhile_append_of_pos fun c hc => h c (List.mem_reverse.mp hc)]
  rfl

/-- Dropping stops at a character that is kept, whatever stands before it. -/
theorem dropTailWhile_append {t : Text} (s : Text) (h : dropTailWhile p t ≠ []) :
    dropTailWhile p (s ++ t) = s ++ dropTailWhile p t := by
  have hne : ((t.reverse.dropWhile p).isEmpty) = false := by
    rw [List.isEmpty_eq_false_iff]
    intro hnil
    exact h (by rw [dropTailWhile, hnil, List.reverse_nil])
  rw [dropTailWhile, dropTailWhile, List.reverse_append, List.dropWhile_append, hne,
    if_neg Bool.false_ne_true, List.reverse_append, List.reverse_reverse]

/-- Trimming at the end goes no further than a character that stays. -/
theorem dropTailWhile_cons {c : Char} (t : Text) (hc : p c = false) :
    dropTailWhile p (c :: t) = c :: dropTailWhile p t := by
  by_cases h : dropTailWhile p t = []
  · have hall : ∀ d ∈ t, p d = true := List.rdropWhile_eq_nil_iff.mp h
    have hdrop : t.reverse.dropWhile p = [] := by simpa using hall
    rw [h, dropTailWhile, List.reverse_cons, List.dropWhile_append, hdrop]
    simp [hc]
  · exact dropTailWhile_append [c] h

/-! ## Both ends -/

/-- A text is a blank head, what trimming leaves, and a blank tail. -/
theorem exists_trim (t : Text) :
    ∃ head tail, t = head ++ trim p t ++ tail ∧ (∀ c ∈ head, p c = true) ∧
      ∀ c ∈ tail, p c = true := by
  obtain ⟨tail, htail, hall⟩ := exists_dropTailWhile_append (p := p) (t.dropWhile p)
  refine ⟨t.takeWhile p, tail, ?_, fun c => List.mem_takeWhile_imp, hall⟩
  rw [trim, List.append_assoc, ← htail, List.takeWhile_append_dropWhile]

/-- What is trimmed does not begin with a character to be trimmed. -/
theorem not_of_head?_trim {t : Text} {c : Char} (h : (trim p t).head? = some c) : p c = false := by
  obtain ⟨tail, htail, -⟩ := exists_dropTailWhile_append (p := p) (t.dropWhile p)
  have hhead : (t.dropWhile p).head? = some c := by
    rw [htail, List.head?_append]
    exact Option.or_eq_some_iff.mpr (.inl h)
  have hnot := List.head?_dropWhile_not p t
  rw [hhead] at hnot
  simpa using hnot

theorem mem_of_mem_trim {t : Text} {c : Char} (h : c ∈ trim p t) : c ∈ t :=
  (List.dropWhile_suffix p).subset ((List.rdropWhile_prefix p _).subset h)

/-- A character that is kept is not trimmed away. -/
theorem mem_trim {t : Text} {c : Char} (h : c ∈ t) (hc : p c = false) : c ∈ trim p t := by
  obtain ⟨head, tail, htext, hhead, htail⟩ := exists_trim (p := p) t
  rw [htext, List.mem_append, List.mem_append] at h
  rcases h with (h | h) | h
  · rw [hhead c h] at hc
    cases hc
  · exact h
  · rw [htail c h] at hc
    cases hc

/-- Trimming leaves a text alone that begins and ends with characters that are kept. -/
theorem trim_of_ends {t : Text} (hhead : ∀ c, t.head? = some c → p c = false)
    (hlast : ∀ c, t.getLast? = some c → p c = false) : trim p t = t := by
  have hstart : t.dropWhile p = t := by
    cases t with
    | nil => rfl
    | cons c t => rw [List.dropWhile_cons, hhead c rfl, if_neg Bool.false_ne_true]
  rw [trim, hstart, dropTailWhile_of_getLast? hlast]

/-- Trimming twice is trimming once. -/
theorem trim_trim (t : Text) : trim p (trim p t) = trim p t :=
  trim_of_ends (fun _ => not_of_head?_trim) (fun _ => not_of_getLast?_dropTailWhile)

/-- A tail of trimmed characters makes no difference. -/
theorem trim_append_of_pos {tail : Text} (t : Text) (h : ∀ c ∈ tail, p c = true) :
    trim p (t ++ tail) = trim p t := by
  rw [trim, trim, List.dropWhile_append]
  split
  · rename_i hempty
    rw [List.dropWhile_eq_nil_iff.mpr h, List.isEmpty_iff.mp hempty]
  · exact dropTailWhile_append_of_pos _ h

/-- What trimming leaves of the last part of a text decides what the text ends with. -/
theorem getLast?_dropTailWhile_append {t : Text} (s : Text) (h : trim p t ≠ []) :
    (dropTailWhile p (s ++ t)).getLast? = (trim p t).getLast? := by
  have hsplit : s ++ t = (s ++ t.takeWhile p) ++ t.dropWhile p := by
    rw [List.append_assoc, List.takeWhile_append_dropWhile]
  have hne : dropTailWhile p (t.dropWhile p) ≠ [] := h
  rw [hsplit, dropTailWhile_append _ hne, List.getLast?_append_of_ne_nil _ hne, trim]

end ContentFilter.Text
