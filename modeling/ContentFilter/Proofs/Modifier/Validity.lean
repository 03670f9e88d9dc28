import ContentFilter.Proofs.Modifier.Registry
import ContentFilter.Proofs.Modifier.Spelling

/-!
# Valid tokens

A token is valid if it spells a modifier that the registry knows and that fits the rule
(`Modifier.IsValid`). Any other has one fault (`Modifier.Fault`), and it is refused for that fault,
as a whole. Reading a token says no more than this (`Modifier.read_spec`), and what is proved about
tokens later on starts from here and not from the reader.
-/

set_option autoImplicit false

namespace ContentFilter.Modifier

/-- A token spells a modifier of the registry that fits the rule. -/
def IsValid (ruleKinds : RuleKinds) (token : Text) : Prop :=
  ∃ negated name value kind, Spells token negated name value ∧
    ModifierKind.isNamed kind name = true ∧ Fits ruleKinds kind negated value

/-- What is wrong with a token that is not valid. -/
inductive Fault (ruleKinds : RuleKinds) (token : Text) : Cause → Prop
  | unknown {negated : Bool} {name : Text} {value : Option Text}
      (hspells : Spells token negated name value)
      (hname : ∀ kind : ModifierKind, kind.isNamed name = false) :
      Fault ruleKinds token (.unknownModifier name)
  | objection {negated : Bool} {name : Text} {value : Option Text} {kind : ModifierKind}
      {cause : Cause} (hspells : Spells token negated name value)
      (hname : kind.isNamed name = true)
      (hobjects : Objects ruleKinds kind negated name value cause) :
      Fault ruleKinds token cause

variable {ruleKinds : RuleKinds}

/-- A token has at most one fault. -/
theorem Fault.unique {token : Text} {cause cause' : Cause} (h : Fault ruleKinds token cause)
    (h' : Fault ruleKinds token cause') : cause = cause' := by
  cases h with
  | unknown hspells hname =>
    cases h' with
    | unknown hspells' hname' =>
      obtain ⟨-, rfl, -⟩ := hspells.unique hspells'
      rfl
    | objection hspells' hname' _ =>
      obtain ⟨-, rfl, -⟩ := hspells.unique hspells'
      rw [hname] at hname'
      exact nomatch hname'
  | objection hspells hname hobjects =>
    cases h' with
    | unknown hspells' hname' =>
      obtain ⟨-, rfl, -⟩ := hspells.unique hspells'
      rw [hname'] at hname
      exact nomatch hname
    | objection hspells' hname' hobjects' =>
      obtain ⟨rfl, rfl, rfl⟩ := hspells.unique hspells'
      obtain rfl := ModifierKind.eq_of_isNamed hname hname'
      exact hobjects.unique hobjects'

/-- A valid token has no fault. -/
theorem IsValid.not_fault {token : Text} {cause : Cause} (h : IsValid ruleKinds token) :
    ¬ Fault ruleKinds token cause := by
  obtain ⟨negated, name, value, kind, hspells, hname, hfits⟩ := h
  intro hfault
  cases hfault with
  | unknown hspells' hname' =>
    obtain ⟨-, rfl, -⟩ := hspells.unique hspells'
    rw [hname'] at hname
    exact nomatch hname
  | objection hspells' hname' hobjects =>
    obtain ⟨rfl, rfl, rfl⟩ := hspells.unique hspells'
    obtain rfl := ModifierKind.eq_of_isNamed hname hname'
    exact hfits.not_objects hobjects

/-- A modifier is what the registry and the parts of a token make of it. -/
structure IsRead (ruleKinds : RuleKinds) (token : Fragment) (m : Modifier) : Prop where
  parts_eq : Token.ofFragment token = ⟨m.negated, m.name, m.value⟩
  isNamed : m.kind.isNamed m.name = true
  fits : Fits ruleKinds m.kind m.negated (m.value.map (·.text))
  span_eq : m.span = token.span

/-- A modifier is what its token spells. -/
theorem IsRead.spells {token : Fragment} {m : Modifier} (h : IsRead ruleKinds token m) :
    Spells token.text m.negated m.name (m.value.map (·.text)) := by
  have hspells := spells_ofFragment token
  rwa [h.parts_eq] at hspells

/-- **One token.** It says a modifier, or it is refused for a fault, at the whole of it. -/
theorem read_spec (ruleKinds : RuleKinds) (token : Fragment) :
    match read ruleKinds token with
    | .ok m => IsRead ruleKinds token m
    | .error e => Fault ruleKinds token.text e.cause ∧ e.span = token.span := by
  have hspells := spells_ofFragment token
  rw [read]
  cases hnamed : ModifierKind.named? (Token.ofFragment token).name with
  | none => exact ⟨.unknown hspells (ModifierKind.named?_eq_none_iff.mp hnamed), rfl⟩
  | some kind =>
    have hname := ModifierKind.named?_eq_some_iff.mp hnamed
    dsimp only
    cases hobjection : objection? kind ruleKinds (Token.ofFragment token) with
    | none => exact ⟨rfl, hname, objection?_eq_none_iff.mp hobjection, rfl⟩
    | some cause => exact ⟨.objection hspells hname (objection?_eq_some_iff.mp hobjection), rfl⟩

variable {token : Fragment}

/-- The answer for a token is what the registry makes of its parts. -/
theorem isRead_of_read {m : Modifier} (h : read ruleKinds token = .ok m) :
    IsRead ruleKinds token m := by
  have hspec := read_spec ruleKinds token
  rwa [h] at hspec

/-- The error for a token is its fault, and points at the whole of it. -/
theorem fault_of_read {e : SyntaxError} (h : read ruleKinds token = .error e) :
    Fault ruleKinds token.text e.cause ∧ e.span = token.span := by
  have hspec := read_spec ruleKinds token
  rwa [h] at hspec

/-- The valid tokens are those that are read. -/
theorem isValid_iff : IsValid ruleKinds token.text ↔ ∃ m, read ruleKinds token = .ok m := by
  constructor
  · intro hvalid
    cases hread : read ruleKinds token with
    | ok m => exact ⟨m, rfl⟩
    | error e => exact absurd (fault_of_read hread).1 hvalid.not_fault
  · rintro ⟨m, hm⟩
    have hread := isRead_of_read hm
    exact ⟨_, _, _, _, hread.spells, hread.isNamed, hread.fits⟩

/-- A token that is not valid is refused for the only fault that it has. -/
theorem exists_fault_of_not_isValid (h : ¬ IsValid ruleKinds token.text) :
    ∃ cause, read ruleKinds token = .error ⟨cause, token.span⟩ ∧
      ∀ cause', Fault ruleKinds token.text cause' ↔ cause' = cause := by
  cases hread : read ruleKinds token with
  | ok m => exact absurd (isValid_iff.mpr ⟨m, hread⟩) h
  | error e =>
    obtain ⟨cause, span⟩ := e
    obtain ⟨hfault, rfl⟩ := fault_of_read hread
    refine ⟨cause, rfl, fun cause' => ⟨fun hfault' => hfault'.unique hfault, ?_⟩⟩
    rintro rfl
    exact hfault

end ContentFilter.Modifier
