import ContentFilter.Cosmetic.Marker
import Mathlib.Data.List.Infix

/-!
# Finding the marker

A rule is split where a marker begins for the first time. What is found there is a marker of the
text (`eq_of_split?`), none begins in front of it (`not_prefix_of_split?`), and no other one could
be found in its place since no marker begins another. So a marker that is written behind a text is
found again, if none begins in that text (`split?_append`). One that begins in the text could reach
into the marker itself, as in `a$$$b`, so the text alone does not tell.
-/

set_option autoImplicit false

namespace ContentFilter.Marker

/-- The search with what it has passed so far: the marker it finds is behind a stretch in which no
marker begins. -/
private theorem exists_of_split?_go {seen t : Text} {s : Split}
    (h : split?.go seen t = some s) :
    ∃ front, s.before = seen.reverse ++ front ∧ t = front ++ s.marker.text ++ s.rest ∧
      ∀ u v, front = u ++ v → v ≠ [] → starting? (v ++ s.marker.text ++ s.rest) = none := by
  induction t generalizing seen with
  | nil => exact nomatch h
  | cons c t ih =>
    rw [split?.go] at h
    cases hstarting : starting? (c :: t) with
    | some m =>
      rw [hstarting] at h
      obtain rfl := Option.some.inj h
      have hmarker := List.find?_some hstarting
      obtain ⟨rest, hrest⟩ := List.isPrefixOf_iff_prefix.mp hmarker
      refine ⟨[], (List.append_nil _).symm, ?_, fun u v huv hne => ?_⟩
      · rw [← hrest, List.drop_left, List.nil_append]
      · exact absurd (List.append_eq_nil_iff.mp huv.symm).2 hne
    | none =>
      rw [hstarting] at h
      obtain ⟨front, hbefore, rfl, hnone⟩ := ih h
      refine ⟨c :: front, ?_, rfl, fun u v huv hne => ?_⟩
      · rw [hbefore, List.reverse_cons, List.append_assoc, List.singleton_append]
      · rcases List.cons_eq_append_iff.mp huv with ⟨-, rfl⟩ | ⟨u', -, hfront⟩
        · exact hstarting
        · exact hnone u' v hfront hne

/-- The parts of a split text make up the text. -/
theorem eq_of_split? {t : Text} {s : Split} (h : split? t = some s) :
    t = s.before ++ s.marker.text ++ s.rest := by
  obtain ⟨front, hbefore, ht, -⟩ := exists_of_split?_go h
  rw [ht, hbefore, List.reverse_nil, List.nil_append]

/-- Every marker is among those that are looked for. -/
theorem mem_all (m : Marker) : m ∈ all := by
  obtain ⟨effect, exception⟩ := m
  cases effect <;> cases exception <;> decide

/-- No marker begins another. -/
theorem eq_of_text_isPrefixOf {m m' : Marker} (h : m.text.isPrefixOf m'.text = true) : m = m' := by
  have hall : ∀ m ∈ all, ∀ m' ∈ all, m.text.isPrefixOf m'.text = true → m = m' := by decide
  exact hall m (mem_all m) m' (mem_all m') h

/-- No marker is found at a place exactly if none begins there. -/
theorem starting?_eq_none_iff {t : Text} :
    starting? t = none ↔ ∀ m : Marker, ¬ m.text <+: t := by
  rw [starting?, List.find?_eq_none]
  simp only [List.isPrefixOf_iff_prefix]
  exact ⟨fun h m => h m (mem_all m), fun h m _ => h m⟩

/-- No marker begins in front of the one at which a text is split. -/
theorem not_prefix_of_split? {t : Text} {s : Split} (h : split? t = some s) {u v : Text}
    (hbefore : s.before = u ++ v) (hne : v ≠ []) (m : Marker) :
    ¬ m.text <+: v ++ s.marker.text ++ s.rest := by
  obtain ⟨front, hfront, -, hnone⟩ := exists_of_split?_go h
  rw [hfront, List.reverse_nil, List.nil_append] at hbefore
  exact starting?_eq_none_iff.mp (hnone u v hbefore hne) m

/-- A marker is found where it begins, whatever follows: none begins another. -/
theorem starting?_text_append (m : Marker) (rest : Text) :
    starting? (m.text ++ rest) = some m := by
  cases hstarting : starting? (m.text ++ rest) with
  | none => exact absurd (List.prefix_append m.text rest) (starting?_eq_none_iff.mp hstarting m)
  | some m' =>
    have hfound := List.find?_some hstarting
    have hm' : m'.text <+: m.text ++ rest := List.isPrefixOf_iff_prefix.mp hfound
    -- Of two beginnings of one text, one begins the other.
    rcases List.prefix_or_prefix_of_prefix hm' (List.prefix_append m.text rest) with h | h
    · rw [eq_of_text_isPrefixOf (List.isPrefixOf_iff_prefix.mpr h)]
    · rw [eq_of_text_isPrefixOf (List.isPrefixOf_iff_prefix.mpr h)]

/-- No marker is empty, so a first character can be taken off it. -/
theorem exists_text_eq_cons (m : Marker) : ∃ c t, m.text = c :: t := by
  obtain ⟨effect, exception⟩ := m
  cases exception <;> exact ⟨_, _, rfl⟩

/-- A marker is found again behind a text in which none begins. -/
theorem split?_append {front rest : Text} {m : Marker}
    (h : ∀ s t, front = s ++ t → t ≠ [] → ∀ m' : Marker, ¬ m'.text <+: t ++ m.text ++ rest) :
    split? (front ++ m.text ++ rest) = some ⟨front, m, rest⟩ := by
  have hgo : ∀ seen, split?.go seen (front ++ m.text ++ rest) =
      some ⟨seen.reverse ++ front, m, rest⟩ := by
    induction front with
    | nil =>
      intro seen
      obtain ⟨c, t, hm⟩ := exists_text_eq_cons m
      have hstarting := starting?_text_append m rest
      have hdrop : (m.text ++ rest).drop m.text.length = rest := List.drop_left
      rw [List.nil_append, List.append_nil]
      rw [hm, List.cons_append] at hstarting hdrop ⊢
      rw [split?.go, hstarting]
      simp only [hm, hdrop]
    | cons c front ih =>
      intro seen
      have hnone : starting? (c :: (front ++ m.text ++ rest)) = none :=
        starting?_eq_none_iff.mpr (h [] (c :: front) rfl (List.cons_ne_nil c front))
      have hrest := ih (fun s t hst => h (c :: s) t (by rw [hst]; rfl)) (c :: seen)
      rw [List.reverse_cons, List.append_assoc seen.reverse, List.singleton_append] at hrest
      rw [List.cons_append, List.cons_append, split?.go, hnone]
      exact hrest
  exact hgo []

end ContentFilter.Marker
