import ContentFilter.Text.Cut
import Mathlib.Data.List.Induction

/-!
# What the cuts do

The cuts of `Text.Cut` are loops with accumulators, which is how they should run and not how
they should be reasoned about. This file replaces them by two facts about the boundaries of a
text: a cut goes through at the first boundary, and nowhere in a text without boundaries
(`Unbroken`). For the cuts at unescaped characters the second becomes a condition that a reader
of a filter list can check, `Guarded`: every occurrence is directly preceded by a backslash.

The condition looks inside the text only. A guarded text may therefore be put behind a
separator without being cut; put behind a backslash, it takes the separator before it along,
which is what `length_cut_join` counts.
-/

set_option autoImplicit false

namespace ContentFilter.Text

/-! ## Texts without boundaries -/

/-- No character of a text is a boundary when `previous` stands before the text. -/
def Unbroken (boundary : Boundary) : Option Char → Text → Prop
  | _, [] => True
  | previous, c :: rest => boundary previous c = false ∧ Unbroken boundary (some c) rest

/-- Every `c` in a text is directly preceded, in that text, by a backslash. -/
def Guarded (c : Char) (t : Text) : Prop :=
  ∀ before after, t = before ++ c :: after → before.getLast? = some '\\'

instance decidableUnbroken (boundary : Boundary) :
    (previous : Option Char) → (t : Text) → Decidable (Unbroken boundary previous t)
  | _, [] => isTrue trivial
  | previous, c :: rest =>
    have := decidableUnbroken boundary (some c) rest
    inferInstanceAs (Decidable (boundary previous c = false ∧ Unbroken boundary (some c) rest))

section Unbroken

variable {boundary : Boundary} {previous : Option Char}

@[simp] theorem unbroken_nil : Unbroken boundary previous [] := trivial

@[simp] theorem unbroken_cons {c : Char} {t : Text} :
    Unbroken boundary previous (c :: t) ↔
      boundary previous c = false ∧ Unbroken boundary (some c) t := Iff.rfl

/-- Two texts in a row hold no boundary if neither does, the second one behind the first. -/
theorem unbroken_append {s t : Text} :
    Unbroken boundary previous (s ++ t) ↔
      Unbroken boundary previous s ∧ Unbroken boundary (s.getLast?.or previous) t := by
  induction s generalizing previous with
  | nil => simp
  | cons c s ih =>
    rw [List.cons_append, unbroken_cons, unbroken_cons, ih, and_assoc, List.getLast?_cons]
    cases s.getLast? <;> rfl

/-- The occurrences of `c` decide alone whether a cut at unescaped `c` goes through. The
character before the text matters for its first character only. -/
theorem unbroken_unescaped_iff {c : Char} {t : Text} (hprev : previous ≠ some '\\') :
    Unbroken (unescaped c) previous t ↔ Guarded c t := by
  constructor
  · intro h before after ht
    rw [ht, unbroken_append, unbroken_cons] at h
    have hguard := h.2.1
    simp only [unescaped, beq_self_eq_true, Bool.true_and, bne_eq_false_iff_eq] at hguard
    cases hlast : before.getLast? with
    | none => rw [hlast, Option.none_or] at hguard; exact absurd hguard hprev
    | some d => rw [hlast, Option.some_or] at hguard; exact hguard
  · intro h
    -- From the right, so that the character in question is the last one.
    induction t using List.reverseRecOn with
    | nil => trivial
    | append_singleton s d ih =>
      rw [unbroken_append]
      refine ⟨ih fun before after hs => ?_, ?_, trivial⟩
      · exact h before (after ++ [d]) (by rw [hs]; simp)
      · by_cases hd : d = c
        · have hlast := h s [] (by rw [hd])
          simp [unescaped, hlast]
        · simp [unescaped, hd]

/-- A text without a character holds no boundary at that character. -/
theorem unbroken_of_not_mem {c : Char} {t : Text} (h : c ∉ t) :
    Unbroken (unescaped c) previous t := by
  induction t generalizing previous with
  | nil => trivial
  | cons d t ih =>
    rw [List.mem_cons, not_or] at h
    have hne : d ≠ c := Ne.symm h.1
    exact ⟨by simp [unescaped, hne], ih h.2⟩

/-- Reading from the left, a text has a first boundary or none. -/
theorem exists_first_boundary {t : Text} (h : ¬ Unbroken boundary previous t) :
    ∃ before c after, t = before ++ c :: after ∧ Unbroken boundary previous before ∧
      boundary (before.getLast?.or previous) c = true := by
  induction t generalizing previous with
  | nil => exact absurd trivial h
  | cons d t ih =>
    by_cases hd : boundary previous d = true
    · exact ⟨[], d, t, rfl, trivial, by simpa using hd⟩
    · have hd' : boundary previous d = false := by simpa using hd
      obtain ⟨before, c, after, rfl, hbefore, hc⟩ := ih fun ht => h ⟨hd', ht⟩
      refine ⟨d :: before, c, after, rfl, ⟨hd', hbefore⟩, ?_⟩
      rw [List.getLast?_cons]
      cases hlast : before.getLast? <;> simpa [hlast] using hc

end Unbroken

/-! ## Guarded texts -/

section Guarded

variable {c : Char}

/-- A text in which every `c` is guarded holds no boundary at unescaped `c`. -/
theorem guarded_iff_unbroken {t : Text} : Guarded c t ↔ Unbroken (unescaped c) none t :=
  (unbroken_unescaped_iff (by simp)).symm

instance (t : Text) : Decidable (Guarded c t) := decidable_of_iff' _ guarded_iff_unbroken

theorem guarded_of_not_mem {t : Text} (h : c ∉ t) : Guarded c t :=
  guarded_iff_unbroken.mpr (unbroken_of_not_mem h)

/-- A part of a guarded text is guarded, unless a backslash was cut off in front of it. -/
theorem Guarded.inner {x y z : Text} (h : Guarded c (x ++ y ++ z)) (hx : x.getLast? ≠ some '\\') :
    Guarded c y := by
  intro before after hy
  have hlast := h (x ++ before) (after ++ z) (by rw [hy]; simp)
  rw [List.getLast?_append] at hlast
  cases hb : before.getLast? with
  | none => rw [hb, Option.none_or] at hlast; exact absurd hlast hx
  | some d => rwa [hb, Option.some_or] at hlast

/-- A text in which `c` does not occur may be added. -/
theorem Guarded.append_of_not_mem {p q : Text} (hp : Guarded c p) (hq : c ∉ q) :
    Guarded c (p ++ q) := by
  rw [guarded_iff_unbroken, unbroken_append]
  exact ⟨guarded_iff_unbroken.mp hp, unbroken_of_not_mem hq⟩

/-- Two guarded texts may be joined by `c` behind a backslash. -/
theorem Guarded.append_cons {p q : Text} (hp : Guarded c p) (hq : Guarded c q)
    (hlast : p.getLast? = some '\\') (hc : c ≠ '\\') : Guarded c (p ++ c :: q) := by
  rw [guarded_iff_unbroken, unbroken_append, unbroken_cons]
  refine ⟨guarded_iff_unbroken.mp hp, ?_, ?_⟩
  · simp [unescaped, hlast]
  · exact (unbroken_unescaped_iff (by simpa using hc)).mpr hq

end Guarded

/-! ## The two splits -/

section Split

variable {boundary : Boundary} {t p q : Text}

/-- The loop of `splitFirst?` carries the text it has passed and looks at its last character. -/
private theorem splitFirst?_go_eq_some {seen : Text}
    (h : splitFirst?.go boundary seen.head? seen t = some (p, q)) :
    ∃ c, seen.reverse ++ t = p ++ c :: q ∧ boundary p.getLast? c = true := by
  induction t generalizing seen with
  | nil => exact nomatch h
  | cons c t ih =>
    rw [splitFirst?.go] at h
    split at h
    · rename_i hc
      obtain ⟨rfl, rfl⟩ := Prod.mk.inj (Option.some.inj h)
      exact ⟨c, rfl, by rwa [List.getLast?_reverse]⟩
    · obtain ⟨d, hsplit, hd⟩ := @ih (c :: seen) h
      refine ⟨d, ?_, hd⟩
      rw [← hsplit, List.reverse_cons, List.append_assoc, List.singleton_append]

/-- What a text is split into stands around a boundary. -/
theorem exists_of_splitFirst? (h : splitFirst? boundary t = some (p, q)) :
    ∃ c, t = p ++ c :: q ∧ boundary p.getLast? c = true := by
  have hgo : splitFirst?.go boundary ([] : Text).head? [] t = some (p, q) := h
  exact splitFirst?_go_eq_some hgo

/-- A boundary that was found is found in a longer text too. -/
private theorem splitFirst?_go_append_right {previous : Option Char} {seen : Text}
    (h : splitFirst?.go boundary previous seen t = some (p, q)) (rest : Text) :
    splitFirst?.go boundary previous seen (t ++ rest) = some (p, q ++ rest) := by
  induction t generalizing previous seen with
  | nil => exact nomatch h
  | cons c t ih =>
    rw [List.cons_append]
    rw [splitFirst?.go] at h ⊢
    split at h
    · rename_i hc
      obtain ⟨rfl, rfl⟩ := Prod.mk.inj (Option.some.inj h)
      rw [if_pos hc]
    · rename_i hc
      rw [if_neg hc]
      exact ih h

/-- What stands behind a text is behind its first boundary too. -/
theorem splitFirst?_append_right (h : splitFirst? boundary t = some (p, q)) (rest : Text) :
    splitFirst? boundary (t ++ rest) = some (p, q ++ rest) :=
  splitFirst?_go_append_right h rest

/-- Where the search for the first boundary finds none, there is none. -/
private theorem splitFirst?_go_eq_none {previous : Option Char} {seen : Text}
    (h : splitFirst?.go boundary previous seen t = none) : Unbroken boundary previous t := by
  induction t generalizing previous seen with
  | nil => trivial
  | cons c t ih =>
    rw [splitFirst?.go] at h
    split at h
    · exact nomatch h
    · rename_i hc
      exact ⟨by simpa using hc, ih h⟩

theorem unbroken_of_splitFirst? (h : splitFirst? boundary t = none) : Unbroken boundary none t :=
  splitFirst?_go_eq_none h

/-- What the search from the end finds stands around a boundary. -/
private theorem splitLast?_go_eq_some {after : Text}
    (h : splitLast?.go boundary after t = some (p, q)) :
    ∃ c, t.reverse ++ after = p ++ c :: q ∧ boundary p.getLast? c = true := by
  induction t generalizing after with
  | nil => exact nomatch h
  | cons c t ih =>
    rw [splitLast?.go] at h
    split at h
    · rename_i hc
      obtain ⟨rfl, rfl⟩ := Prod.mk.inj (Option.some.inj h)
      exact ⟨c, by simp, by rwa [List.getLast?_reverse]⟩
    · obtain ⟨d, hsplit, hd⟩ := ih h
      refine ⟨d, ?_, hd⟩
      rw [← hsplit, List.reverse_cons, List.append_assoc, List.singleton_append]

theorem exists_of_splitLast? (h : splitLast? boundary t = some (p, q)) :
    ∃ c, t = p ++ c :: q ∧ boundary p.getLast? c = true := by
  obtain ⟨c, hsplit, hc⟩ := splitLast?_go_eq_some h
  rw [List.reverse_reverse, List.append_nil] at hsplit
  exact ⟨c, hsplit, hc⟩

/-- The loop of `splitLast?` passes over no boundary. -/
private theorem splitLast?_go_unbroken {after : Text} (hafter : Unbroken boundary t.head? after)
    (h : splitLast?.go boundary after t = some (p, q)) :
    ∃ c, boundary p.getLast? c = true ∧ Unbroken boundary (some c) q := by
  induction t generalizing after with
  | nil => exact nomatch h
  | cons c t ih =>
    rw [splitLast?.go] at h
    split at h
    · rename_i hc
      obtain ⟨rfl, rfl⟩ := Prod.mk.inj (Option.some.inj h)
      exact ⟨c, by rwa [List.getLast?_reverse], hafter⟩
    · rename_i hc
      have hpassed : Unbroken boundary t.head? (c :: after) := ⟨by simpa using hc, hafter⟩
      exact ih hpassed h

/-- Behind the last boundary there is none. -/
theorem guarded_of_splitLast? {c : Char} (hc : c ≠ '\\')
    (h : splitLast? (unescaped c) t = some (p, q)) : Guarded c q := by
  obtain ⟨d, hd, hq⟩ := splitLast?_go_unbroken unbroken_nil h
  simp only [unescaped, Bool.and_eq_true, beq_iff_eq] at hd
  obtain ⟨rfl, -⟩ := hd
  exact (unbroken_unescaped_iff (by simpa using hc)).mp hq

/-- The loop of `splitLast?` passes over what stands after the last boundary. -/
private theorem splitLast?_go_append {previous : Option Char} {t : Text} (after before : Text)
    (hprev : before.head? = previous) (h : Unbroken boundary previous t) :
    splitLast?.go boundary after (t.reverse ++ before)
      = splitLast?.go boundary (t ++ after) before := by
  induction t using List.reverseRecOn generalizing after with
  | nil => rfl
  | append_singleton t d ih =>
    rw [unbroken_append, unbroken_cons] at h
    have hhead : (t.reverse ++ before).head? = t.getLast?.or previous := by
      rw [List.head?_append, List.head?_reverse, hprev]
    rw [List.reverse_append, List.reverse_singleton, List.singleton_append, List.cons_append,
      splitLast?.go, hhead, h.2.1, if_neg Bool.false_ne_true, ih _ h.1, List.append_assoc,
      List.singleton_append]

/-- A text is split at a boundary with none behind it. -/
theorem splitLast?_of_last_boundary {p t : Text} {c : Char}
    (hc : boundary p.getLast? c = true) (ht : Unbroken boundary (some c) t) :
    splitLast? boundary (p ++ c :: t) = some (p, t) := by
  have hsplit : (p ++ c :: t).reverse = t.reverse ++ (c :: p.reverse) := by simp
  rw [splitLast?, hsplit, splitLast?_go_append _ _ rfl ht, splitLast?.go, List.head?_reverse, hc,
    if_pos rfl, List.reverse_reverse, List.append_nil]

/-- The loop of `splitFirst?` passes over what stands before the first boundary. -/
private theorem splitFirst?_go_append {previous : Option Char} {seen p t : Text} {c : Char}
    (hp : Unbroken boundary previous p) (hc : boundary (p.getLast?.or previous) c = true) :
    splitFirst?.go boundary previous seen (p ++ c :: t) = some (seen.reverse ++ p, t) := by
  induction p generalizing previous seen with
  | nil =>
    have hfirst : boundary previous c = true := hc
    rw [List.nil_append, splitFirst?.go, if_pos hfirst, List.append_nil]
  | cons d p ih =>
    have hlast : p.getLast?.or (some d) = (d :: p).getLast?.or previous := by
      rw [List.getLast?_cons]
      cases p.getLast? <;> rfl
    rw [List.cons_append, splitFirst?.go, hp.1, if_neg Bool.false_ne_true,
      ih hp.2 (by rw [hlast]; exact hc), List.reverse_cons, List.append_assoc,
      List.singleton_append]

end Split

/-- A text is split at its first unescaped `c` and nowhere else. -/
theorem splitFirst?_unescaped_append {c : Char} {p t : Text} (hp : Guarded c p)
    (hlast : p.getLast? ≠ some '\\') : splitFirst? (unescaped c) (p ++ c :: t) = some (p, t) := by
  refine splitFirst?_go_append (guarded_iff_unbroken.mp hp) ?_
  simp [unescaped, hlast]

/-- A text is split at its last unescaped `c` and nowhere else. -/
theorem splitLast?_unescaped_append {c : Char} (hc : c ≠ '\\') {p t : Text}
    (hp : p.getLast? ≠ some '\\') (ht : Guarded c t) :
    splitLast? (unescaped c) (p ++ c :: t) = some (p, t) := by
  refine splitLast?_of_last_boundary ?_ ((unbroken_unescaped_iff (by simpa using hc)).mpr ht)
  simp [unescaped, hp]

/-! ## The cut

`piecesAfter` is the loop of `cut` with empty accumulators, which is the form that a proof can
follow along the text. -/

/-- The pieces of a text that stands after `previous`. -/
def piecesAfter (boundary : Boundary) (previous : Option Char) (t : Text) : List Text :=
  cut.go boundary previous [] [] t

section Pieces

variable {boundary : Boundary} {previous : Option Char}

/-- What the accumulators of `cut` hold: the pieces that are done, and the head of the one in
hand. -/
private theorem cut_go_eq (seen : Text) (done : List Text) (t : Text) :
    cut.go boundary previous seen done t
      = done.reverse ++ (piecesAfter boundary previous t).modifyHead (seen.reverse ++ ·) := by
  induction t generalizing previous seen done with
  | nil => simp [piecesAfter, cut.go]
  | cons c t ih =>
    rw [piecesAfter, cut.go, cut.go]
    by_cases hc : boundary previous c = true
    · rw [if_pos hc, if_pos hc, ih, ih [] [[].reverse]]
      simp
    · rw [if_neg hc, if_neg hc, ih, ih [c] []]
      cases piecesAfter boundary (some c) t <;> simp

/-- A boundary begins a new piece, and any other character belongs to the piece behind it. -/
theorem piecesAfter_cons (c : Char) (t : Text) :
    piecesAfter boundary previous (c :: t) =
      if boundary previous c then [] :: piecesAfter boundary (some c) t
      else (piecesAfter boundary (some c) t).modifyHead (c :: ·) := by
  rw [piecesAfter, cut.go, cut_go_eq, cut_go_eq]
  cases boundary previous c <;> simp
  cases piecesAfter boundary (some c) t <;> rfl

theorem piecesAfter_of_unbroken {t : Text} (h : Unbroken boundary previous t) :
    piecesAfter boundary previous t = [t] := by
  induction t generalizing previous with
  | nil => rfl
  | cons c t ih => rw [piecesAfter_cons, h.1, if_neg Bool.false_ne_true, ih h.2]; rfl

/-- The cut goes through at the first boundary. -/
theorem piecesAfter_append_cons {p t : Text} {c : Char} (hp : Unbroken boundary previous p)
    (hc : boundary (p.getLast?.or previous) c = true) :
    piecesAfter boundary previous (p ++ c :: t) = p :: piecesAfter boundary (some c) t := by
  induction p generalizing previous with
  | nil => rw [List.nil_append, piecesAfter_cons, if_pos (by simpa using hc)]
  | cons d p ih =>
    have hlast : p.getLast?.or (some d) = (d :: p).getLast?.or previous := by
      rw [List.getLast?_cons]
      cases p.getLast? <;> rfl
    rw [List.cons_append, piecesAfter_cons, hp.1, if_neg Bool.false_ne_true,
      ih hp.2 (by rw [hlast]; exact hc)]
    rfl

end Pieces

/-- Where nothing is escaped, the cut is that of the library of lists. -/
theorem cut_every (c : Char) (t : Text) : cut (every c) t = t.splitOn c := by
  suffices hpieces : ∀ previous, piecesAfter (every c) previous t = t.splitOn c from hpieces none
  induction t with
  | nil => exact fun _ => rfl
  | cons d t ih =>
    intro previous
    rw [piecesAfter_cons, List.splitOn_cons_eq_if_modifyHead, ih]
    rfl

theorem cut_unescaped_of_guarded {c : Char} {t : Text} (ht : Guarded c t) :
    cut (unescaped c) t = [t] :=
  piecesAfter_of_unbroken (guarded_iff_unbroken.mp ht)

section CutUnescaped

variable {c : Char} (hc : c ≠ '\\')

include hc

/-- Up to the first unescaped `c` a text is one piece. -/
theorem cut_unescaped_append {p t : Text} (hp : Guarded c p) (hlast : p.getLast? ≠ some '\\') :
    cut (unescaped c) (p ++ c :: t) = p :: cut (unescaped c) t := by
  have hfirst : unescaped c (p.getLast?.or none) c = true := by simp [unescaped, hlast]
  have hrest : piecesAfter (unescaped c) (some c) t = cut (unescaped c) t := by
    -- Neither a separator nor the beginning of the text escapes what follows.
    cases t with
    | nil => rfl
    | cons d t =>
      rw [cut, ← piecesAfter, piecesAfter_cons, piecesAfter_cons]
      simp [unescaped, hc]
  rw [← hrest]
  exact piecesAfter_append_cons (guarded_iff_unbroken.mp hp) hfirst

/-- A text is guarded, or it is a guarded piece, an unescaped `c` and a shorter text. -/
theorem cut_unescaped_induction {motive : Text → Prop} (guarded : ∀ t, Guarded c t → motive t)
    (append : ∀ p t, Guarded c p → p.getLast? ≠ some '\\' → motive t → motive (p ++ c :: t))
    (t : Text) : motive t := by
  induction hn : t.length using Nat.strongRecOn generalizing t with
  | ind n ih =>
    by_cases h : Unbroken (unescaped c) none t
    · exact guarded t (guarded_iff_unbroken.mpr h)
    · obtain ⟨p, d, rest, rfl, hp, hd⟩ := exists_first_boundary h
      simp only [Option.or_none, unescaped, Bool.and_eq_true, beq_iff_eq, bne_iff_ne] at hd
      obtain ⟨rfl, hlast⟩ := hd
      have hshorter : rest.length < n := by
        rw [← hn, List.length_append, List.length_cons]
        omega
      exact append p rest (guarded_iff_unbroken.mpr hp) hlast
        (ih _ hshorter rest rfl)

theorem cut_unescaped_ne_nil (t : Text) : cut (unescaped c) t ≠ [] := by
  induction t using cut_unescaped_induction hc with
  | guarded t ht => rw [cut_unescaped_of_guarded ht]; exact List.cons_ne_nil _ _
  | append p t hp hlast _ => rw [cut_unescaped_append hc hp hlast]; exact List.cons_ne_nil _ _

/-- In a piece every `c` is guarded. -/
theorem guarded_of_mem_cut {t p : Text} (h : p ∈ cut (unescaped c) t) : Guarded c p := by
  induction t using cut_unescaped_induction hc with
  | guarded t ht =>
    rw [cut_unescaped_of_guarded ht, List.mem_singleton] at h
    rwa [h]
  | append q t hq hlast ih =>
    rw [cut_unescaped_append hc hq hlast, List.mem_cons] at h
    rcases h with rfl | h
    · exact hq
    · exact ih h

end CutUnescaped

/-! ## Cutting what was joined -/

theorem join_cons_cons (separator t u : Text) (rest : List Text) :
    join separator (t :: u :: rest) = t ++ separator ++ join separator (u :: rest) := rfl

/-- A text in front of the first one belongs to it. -/
theorem join_append_cons (separator s t : Text) (rest : List Text) :
    join separator ((s ++ t) :: rest) = s ++ join separator (t :: rest) := by
  cases rest with
  | nil => rfl
  | cons u rest => rw [join_cons_cons, join_cons_cons]; simp

/-- A joined text ends in the last one of the texts. -/
theorem exists_join_concat (separator : Text) (front : List Text) (t : Text) :
    ∃ s, join separator (front ++ [t]) = s ++ t := by
  induction front with
  | nil => exact ⟨[], rfl⟩
  | cons u front ih =>
    obtain ⟨s, hs⟩ := ih
    cases front with
    | nil => exact ⟨u ++ separator, rfl⟩
    | cons v front =>
      refine ⟨u ++ separator ++ s, ?_⟩
      rw [List.append_assoc, ← hs]
      rfl

/-- A character of a joined text is one of the separator or of one of the texts. -/
theorem mem_join {separator : Text} {ts : List Text} {c : Char} (h : c ∈ join separator ts) :
    c ∈ separator ∨ ∃ t ∈ ts, c ∈ t := by
  induction ts with
  | nil => exact nomatch h
  | cons t ts ih =>
    cases ts with
    | nil => exact .inr ⟨t, List.mem_cons_self, h⟩
    | cons u ts =>
      rw [join_cons_cons, List.mem_append, List.mem_append] at h
      rcases h with (h | h) | h
      · exact .inr ⟨t, List.mem_cons_self, h⟩
      · exact .inl h
      · refine (ih h).imp_right ?_
        rintro ⟨v, hv, hc⟩
        exact ⟨v, List.mem_cons_of_mem t hv, hc⟩

/-- Texts that are unbroken wherever they stand are so together, if what stands between them is no
boundary. -/
theorem unbroken_join {boundary : Boundary} {c : Char} (hc : ∀ previous, boundary previous c = false)
    {ts : List Text} (hts : ∀ t ∈ ts, ∀ previous, Unbroken boundary previous t)
    (previous : Option Char) : Unbroken boundary previous (join [c] ts) := by
  induction ts generalizing previous with
  | nil => trivial
  | cons t ts ih =>
    have ht := hts t List.mem_cons_self
    cases ts with
    | nil => exact ht previous
    | cons u ts =>
      rw [join_cons_cons, List.append_assoc, List.singleton_append, unbroken_append, unbroken_cons]
      exact ⟨ht previous, hc _, ih (fun v hv => hts v (List.mem_cons_of_mem t hv)) (some c)⟩

/-- Guarded texts stay guarded where something else than a backslash stands between them. -/
theorem guarded_join {c d : Char} (hne : d ≠ c) (hd : d ≠ '\\') {ts : List Text}
    (hts : ∀ t ∈ ts, Guarded c t) : Guarded c (join [d] ts) := by
  induction ts with
  | nil => exact guarded_of_not_mem List.not_mem_nil
  | cons t ts ih =>
    obtain ⟨ht, hts⟩ := List.forall_mem_cons.mp hts
    cases ts with
    | nil => exact ht
    | cons u ts =>
      rw [join_cons_cons, List.append_assoc, List.singleton_append, guarded_iff_unbroken,
        unbroken_append, unbroken_cons]
      refine ⟨guarded_iff_unbroken.mp ht, by simp [unescaped, hne], ?_⟩
      exact (unbroken_unescaped_iff (by simpa using hd)).mpr (ih hts)

/-- Whether a separator behind the text would be escaped. -/
def endsInBackslash (t : Text) : Bool := t.getLast? == some '\\'

section CutJoin

variable {c : Char} (hc : c ≠ '\\')

include hc

/-- Joining undoes cutting. -/
theorem join_cut (t : Text) : join [c] (cut (unescaped c) t) = t := by
  induction t using cut_unescaped_induction hc with
  | guarded t ht => rw [cut_unescaped_of_guarded ht, join]
  | append p t hp hlast ih =>
    obtain ⟨q, rest, hcut⟩ := List.exists_cons_of_ne_nil (cut_unescaped_ne_nil hc t)
    rw [hcut] at ih
    rw [cut_unescaped_append hc hp hlast, hcut, join_cons_cons, ih]
    simp

/-- Cutting undoes joining, as long as no piece escapes the separator behind it. -/
theorem cut_join {pieces : List Text} (hne : pieces ≠ []) (hguarded : ∀ p ∈ pieces, Guarded c p)
    (hlast : ∀ p ∈ pieces.dropLast, endsInBackslash p = false) :
    cut (unescaped c) (join [c] pieces) = pieces := by
  induction pieces with
  | nil => exact absurd rfl hne
  | cons p rest ih =>
    cases rest with
    | nil => exact cut_unescaped_of_guarded (hguarded p (by simp))
    | cons q rest =>
      have hp : p.getLast? ≠ some '\\' := by
        simpa [endsInBackslash] using hlast p (by simp)
      rw [join_cons_cons, List.append_assoc, List.singleton_append,
        cut_unescaped_append hc (hguarded p (by simp)) hp,
        ih (by simp) (fun r hr => hguarded r (by simp [hr])) (fun r hr => hlast r (by simp [hr]))]

/-- Each piece that ends in a backslash, the last one apart, costs a cut. The induction is on
the pieces behind the first, which grows by the pieces that it takes along. -/
theorem length_cut_join {p : Text} {rest : List Text} (hguarded : ∀ q ∈ p :: rest, Guarded c q) :
    (cut (unescaped c) (join [c] (p :: rest))).length
      + (p :: rest).dropLast.countP endsInBackslash = rest.length + 1 := by
  induction rest generalizing p with
  | nil =>
    have hp : Guarded c p := hguarded p (by simp)
    rw [join, cut_unescaped_of_guarded hp]
    rfl
  | cons q rest ih =>
    have hp : Guarded c p := hguarded p (by simp)
    have hq : Guarded c q := hguarded q (by simp)
    rw [join_cons_cons, List.append_assoc, List.singleton_append, List.dropLast_cons_cons,
      List.countP_cons, List.length_cons]
    by_cases hlast : p.getLast? = some '\\'
    · have hjoined : p ++ c :: join [c] (q :: rest) = join [c] ((p ++ c :: q) :: rest) := by
        rw [show p ++ c :: q = (p ++ [c]) ++ q by simp, join_append_cons]
        simp
      have hends : endsInBackslash (p ++ c :: q) = endsInBackslash q := by
        rw [endsInBackslash, List.getLast?_append, List.getLast?_cons]
        cases hq' : q.getLast? <;> simp [endsInBackslash, hq', hc]
      have hcount : ((p ++ c :: q) :: rest).dropLast.countP endsInBackslash
          = (q :: rest).dropLast.countP endsInBackslash := by
        cases rest with
        | nil => rfl
        | cons r rest => simp only [List.dropLast_cons_cons, List.countP_cons, hends]
      have hmerged := ih (p := p ++ c :: q) fun r hr => by
        rcases List.mem_cons.mp hr with rfl | hr
        · exact hp.append_cons hq hlast hc
        · exact hguarded r (by simp [hr])
      rw [hjoined, if_pos (by simp [endsInBackslash, hlast])]
      rw [hcount] at hmerged
      omega
    · have hcut := ih (p := q) fun r hr => hguarded r (List.mem_cons_of_mem _ hr)
      rw [cut_unescaped_append hc hp hlast, List.length_cons,
        if_neg (by simp [endsInBackslash, hlast])]
      omega

end CutJoin

end ContentFilter.Text
