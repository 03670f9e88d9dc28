import ContentFilter.SyntaxError
import Mathlib.Data.List.Forall2

/-!
# Readers in sequence

A reader is made of readers, each of which answers with a value or with the error that ends the
whole. So a sequence has a result exactly if all of its parts do.
-/

set_option autoImplicit false

namespace ContentFilter.Reading

variable {α β γ : Type} {x : Reading α}

theorem error_ne_ok {e : SyntaxError} {a : α} : (.error e : Reading α) ≠ .ok a := nofun

theorem map_bind (x : Reading α) (f : α → Reading β) (g : β → γ) :
    (x >>= f).map g = x >>= fun a => (f a).map g := by
  cases x <;> rfl

/-- Two steps have a result if the first one has and the second one has from there. -/
theorem bind_eq_ok_iff {f : α → Reading β} {b : β} :
    (x >>= f) = .ok b ↔ ∃ a, x = .ok a ∧ f a = .ok b := by
  cases x with
  | error e =>
    refine ⟨fun h => (nomatch h), ?_⟩
    rintro ⟨a, ha, -⟩
    exact nomatch ha
  | ok a =>
    refine ⟨fun h => ⟨a, rfl, h⟩, ?_⟩
    rintro ⟨a', ha', h⟩
    obtain rfl := Except.ok.inj ha'
    exact h

theorem map_eq_ok_iff {f : α → β} {b : β} :
    x.map f = .ok b ↔ ∃ a, x = .ok a ∧ f a = b := by
  cases x with
  | error e =>
    refine ⟨fun h => (nomatch h), ?_⟩
    rintro ⟨a, ha, -⟩
    exact nomatch ha
  | ok a =>
    refine ⟨fun h => ⟨a, rfl, Except.ok.inj h⟩, ?_⟩
    rintro ⟨a', ha', rfl⟩
    obtain rfl := Except.ok.inj ha'
    rfl

/-! ## Lists -/

/-- Of two lists that are related item by item, every item of the second has a partner. -/
theorem exists_mem_of_forall₂ {R : α → β → Prop} {as : List α} {bs : List β}
    (h : List.Forall₂ R as bs) {b : β} (hb : b ∈ bs) : ∃ a ∈ as, R a b := by
  induction h with
  | nil => simp at hb
  | @cons a b' as bs hab _ ih =>
    rcases List.mem_cons.mp hb with rfl | hb
    · exact ⟨a, by simp, hab⟩
    · obtain ⟨a', ha', hR⟩ := ih hb
      exact ⟨a', List.mem_cons_of_mem _ ha', hR⟩

/-- A list is read if each of its members is. -/
theorem mapM_eq_ok_iff {f : α → Reading β} {as : List α} {bs : List β} :
    as.mapM f = .ok bs ↔ List.Forall₂ (fun a b => f a = .ok b) as bs := by
  induction as generalizing bs with
  | nil =>
    rw [List.mapM_nil, List.forall₂_nil_left_iff]
    exact ⟨fun h => (Except.ok.inj h).symm, fun h => congrArg Except.ok h.symm⟩
  | cons a as ih =>
    rw [List.mapM_cons, bind_eq_ok_iff, List.forall₂_cons_left_iff]
    refine exists_congr fun b => ?_
    rw [bind_eq_ok_iff]
    constructor
    · rintro ⟨hb, bs', hbs', h⟩
      exact ⟨bs', hb, ih.mp hbs', (Except.ok.inj h).symm⟩
    · rintro ⟨bs', hb, hbs', rfl⟩
      exact ⟨hb, bs', ih.mpr hbs', rfl⟩

/-- There is a result exactly if each of the members has one. -/
theorem exists_mapM_eq_ok_iff {f : α → Reading β} {as : List α} :
    (∃ bs, as.mapM f = .ok bs) ↔ ∀ a ∈ as, ∃ b, f a = .ok b := by
  induction as with
  | nil => exact iff_of_true ⟨[], rfl⟩ fun a ha => (nomatch ha)
  | cons a as ih =>
    rw [List.forall_mem_cons, ← ih]
    constructor
    · rintro ⟨bs, hbs⟩
      obtain ⟨b, bs', hb, hbs', -⟩ := List.forall₂_cons_left_iff.mp (mapM_eq_ok_iff.mp hbs)
      exact ⟨⟨b, hb⟩, bs', mapM_eq_ok_iff.mpr hbs'⟩
    · rintro ⟨⟨b, hb⟩, bs, hbs⟩
      exact ⟨b :: bs, mapM_eq_ok_iff.mpr (.cons hb (mapM_eq_ok_iff.mp hbs))⟩

/-- The first member that is refused decides. -/
theorem mapM_eq_error {f : α → Reading β} {front back : List α} {a : α} {e : SyntaxError}
    (hfront : ∀ a ∈ front, ∃ b, f a = .ok b) (ha : f a = .error e) :
    (front ++ a :: back).mapM f = .error e := by
  induction front with
  | nil =>
    rw [List.nil_append, List.mapM_cons, ha]
    rfl
  | cons first front ih =>
    obtain ⟨⟨b, hb⟩, hfront⟩ := List.forall_mem_cons.mp hfront
    rw [List.cons_append, List.mapM_cons, hb, ih hfront]
    rfl

/-- A list that is refused is refused for one of its members. -/
theorem exists_mem_of_mapM_eq_error {f : α → Reading β} {as : List α} {e : SyntaxError}
    (h : as.mapM f = .error e) : ∃ a ∈ as, f a = .error e := by
  induction as with
  | nil => exact nomatch h
  | cons a as ih =>
    rw [List.mapM_cons] at h
    cases ha : f a with
    | error e' =>
      rw [ha] at h
      obtain rfl := Except.error.inj h
      exact ⟨a, List.mem_cons_self, ha⟩
    | ok b =>
      rw [ha] at h
      cases has : as.mapM f with
      | error e' =>
        rw [has] at h
        obtain rfl := Except.error.inj h
        obtain ⟨a', ha', he⟩ := ih has
        exact ⟨a', List.mem_cons_of_mem _ ha', he⟩
      | ok bs =>
        rw [has] at h
        exact nomatch h

end ContentFilter.Reading
