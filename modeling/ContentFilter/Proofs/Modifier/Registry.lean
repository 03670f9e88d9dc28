import ContentFilter.Modifier.Reader
import Mathlib.Data.List.Nodup
import Mathlib.Data.List.Pairwise

/-!
# What the registry says

The registry is searched for a name and asked what it has against a modifier. Both are loops and
branches that the rest should not have to look into.

A name is the name of one kind at most, so the search finds the kind that is named, whatever the
order (`ModifierKind.named?_eq_some_iff`). And a modifier fits its rule, or there is one thing to be
said against it, the first in the order in which the registry looks (`Modifier.Objects`).
-/

set_option autoImplicit false

namespace ContentFilter

/-! ## Names -/

namespace ModifierKind

variable {kind kind' : ModifierKind} {name : Text}

/-- The list of kinds has them all. -/
theorem mem_every (kind : ModifierKind) : kind ∈ every := by
  cases kind with
  | requestType type => cases type <;> decide
  | _ => decide

theorem nodup_names : (every.flatMap (·.spec.names)).Nodup := by decide

/-- A kind is named by its names, in any case. -/
theorem isNamed_iff : kind.isNamed name = true ↔ Text.foldCase name ∈ kind.spec.names := by
  rw [isNamed, List.contains_iff_mem]

/-- No name is that of two kinds. -/
theorem eq_of_isNamed (h : kind.isNamed name = true) (h' : kind'.isNamed name = true) :
    kind = kind' := by
  by_contra hne
  -- All names in one list, without a repetition: so the names of two kinds are disjoint.
  have hpairwise := (List.nodup_flatMap.mp nodup_names).2
  have hsymm : Std.Symm (Function.onFun List.Disjoint fun k : ModifierKind => k.spec.names) :=
    ⟨fun _ _ h => List.disjoint_symm h⟩
  have hdisjoint : kind.spec.names.Disjoint kind'.spec.names :=
    hpairwise.forall (mem_every kind) (mem_every kind') hne
  exact hdisjoint (isNamed_iff.mp h) (isNamed_iff.mp h')

/-- The kind that is found for a name is the one that it names. -/
theorem named?_eq_some_iff : named? name = some kind ↔ kind.isNamed name = true := by
  have hfound : ∀ {k : ModifierKind}, named? name = some k → k.isNamed name = true := by
    intro k hk
    simpa using List.find?_some hk
  refine ⟨hfound, fun h => ?_⟩
  cases hnamed : named? name with
  | none => exact absurd h (List.find?_eq_none.mp hnamed kind (mem_every kind))
  | some kind' => rw [eq_of_isNamed (hfound hnamed) h]

/-- No kind is found for a name exactly if it names none. -/
theorem named?_eq_none_iff :
    named? name = none ↔ ∀ kind : ModifierKind, kind.isNamed name = false := by
  rw [named?, List.find?_eq_none]
  simp only [Bool.not_eq_true]
  exact ⟨fun h kind => h kind (mem_every kind), fun h kind _ => h kind⟩

end ModifierKind

/-! ## Objections -/

namespace Modifier

/-- A modifier with this value, negated or not, belongs in a rule of one of the kinds `ruleKinds`
and is written as its kind wants it. -/
structure Fits (ruleKinds : RuleKinds) (kind : ModifierKind) (negated : Bool)
    (value : Option Text) : Prop where
  permitted : kind.spec.ruleKinds.meets ruleKinds = true
  negation : negated = true → kind.spec.negatable = true ∧ value = none
  required : kind.spec.value = .required → ∃ v, value = some v ∧ v ≠ []
  forbidden : kind.spec.value = .forbidden → value = none

/-- What is to be said against a modifier. The conditions exclude each other: of several things that
are wrong the first counts. -/
inductive Objects (ruleKinds : RuleKinds) (kind : ModifierKind) (negated : Bool) (name : Text)
    (value : Option Text) : Cause → Prop
  | notPermitted (hkinds : kind.spec.ruleKinds.meets ruleKinds = false) :
      Objects ruleKinds kind negated name value (.modifierNotPermitted name)
  | negation (hkinds : kind.spec.ruleKinds.meets ruleKinds = true) (hnegated : negated = true)
      (hsign : ¬ (kind.spec.negatable = true ∧ value = none)) :
      Objects ruleKinds kind negated name value (.negatedModifier name)
  | valueRequired (hkinds : kind.spec.ruleKinds.meets ruleKinds = true)
      (hsign : negated = true → kind.spec.negatable = true ∧ value = none)
      (hrule : kind.spec.value = .required) (hvalue : ∀ v, value = some v → v = []) :
      Objects ruleKinds kind negated name value (.modifierValueRequired name)
  | valueForbidden (hkinds : kind.spec.ruleKinds.meets ruleKinds = true)
      (hsign : negated = true → kind.spec.negatable = true ∧ value = none)
      (hrule : kind.spec.value = .forbidden) (hvalue : value ≠ none) :
      Objects ruleKinds kind negated name value (.modifierValueForbidden name)

section Objections

variable {ruleKinds : RuleKinds} {kind : ModifierKind}

/-- At most one objection is made. -/
theorem Objects.unique {negated : Bool} {name : Text} {value : Option Text} {cause cause' : Cause}
    (h : Objects ruleKinds kind negated name value cause)
    (h' : Objects ruleKinds kind negated name value cause') : cause = cause' := by
  cases h <;> cases h' <;> grind

/-- There is no objection to a modifier that fits. -/
theorem Fits.not_objects {negated : Bool} {name : Text} {value : Option Text} {cause : Cause}
    (h : Fits ruleKinds kind negated value) :
    ¬ Objects ruleKinds kind negated name value cause := by
  obtain ⟨hpermitted, hnegation, hrequired, hforbidden⟩ := h
  rintro (_ | _ | _ | _) <;> grind

/-- The registry is content with what fits, and objects to anything else. -/
theorem objection?_spec (kind : ModifierKind) (ruleKinds : RuleKinds) (token : Token) :
    match objection? kind ruleKinds token with
    | none => Fits ruleKinds kind token.negated (token.value.map (·.text))
    | some cause =>
      Objects ruleKinds kind token.negated token.name (token.value.map (·.text)) cause := by
  obtain ⟨negated, name, value⟩ := token
  cases hkinds : kind.spec.ruleKinds.meets ruleKinds with
  | false =>
    simp only [objection?, hkinds, Bool.not_false, if_true]
    exact .notPermitted hkinds
  | true =>
    -- The registry asks for a sign and a value at once, `Fits` for what the sign demands.
    have hsigned : (negated && (!kind.spec.negatable || value.isSome)) = true ↔
        negated = true ∧ ¬ (kind.spec.negatable = true ∧ value.map (·.text) = none) := by
      cases value <;> simp
    by_cases hsign : negated = true → kind.spec.negatable = true ∧ value.map (·.text) = none
    · have hquiet : ¬ (negated && (!kind.spec.negatable || value.isSome)) = true := by
        rw [hsigned]
        exact fun hobjects => hobjects.2 (hsign hobjects.1)
      simp only [objection?, hkinds, hquiet, Bool.not_true, Bool.false_eq_true, if_false]
      cases hrule : kind.spec.value with
      | optional => exact ⟨hkinds, hsign, by simp [hrule], by simp [hrule]⟩
      | forbidden =>
        cases value with
        | none => exact ⟨hkinds, hsign, by simp [hrule], fun _ => rfl⟩
        | some value => exact .valueForbidden hkinds hsign hrule (by simp)
      | required =>
        cases value with
        | none => exact .valueRequired hkinds hsign hrule (by simp)
        | some value =>
          obtain ⟨offset, text⟩ := value
          cases text with
          | nil => exact .valueRequired hkinds hsign hrule (by simp)
          | cons c text =>
            have hvalue : ∃ v, some (c :: text) = some v ∧ v ≠ [] :=
              ⟨c :: text, rfl, List.cons_ne_nil c text⟩
            exact ⟨hkinds, hsign, fun _ => hvalue, by simp [hrule]⟩
    · obtain ⟨hnegated, hsign⟩ := Classical.not_imp.mp hsign
      simp only [objection?, hkinds, hsigned.mpr ⟨hnegated, hsign⟩, Bool.not_true,
        Bool.false_eq_true, if_false, if_true]
      exact .negation hkinds hnegated hsign

variable {token : Token} {cause : Cause}

/-- No objection is found exactly if the token fits. -/
theorem objection?_eq_none_iff : objection? kind ruleKinds token = none ↔
    Fits ruleKinds kind token.negated (token.value.map (·.text)) := by
  have hspec := objection?_spec kind ruleKinds token
  cases hobjection : objection? kind ruleKinds token with
  | none => exact iff_of_true rfl (by rwa [hobjection] at hspec)
  | some cause =>
    rw [hobjection] at hspec
    exact iff_of_false (fun h => nomatch h) fun hfits => hfits.not_objects hspec

/-- The objection that is found is the one to be made. -/
theorem objection?_eq_some_iff : objection? kind ruleKinds token = some cause ↔
    Objects ruleKinds kind token.negated token.name (token.value.map (·.text)) cause := by
  have hspec := objection?_spec kind ruleKinds token
  cases hobjection : objection? kind ruleKinds token with
  | none =>
    rw [hobjection] at hspec
    exact iff_of_false (fun h => nomatch h) fun hobjects => hspec.not_objects hobjects
  | some cause' =>
    rw [hobjection] at hspec
    constructor
    · intro h
      rwa [← Option.some.inj h]
    · intro hobjects
      rw [hspec.unique hobjects]

end Objections

end Modifier

end ContentFilter
