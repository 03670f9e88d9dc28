import ContentFilter.Cosmetic.Rule
import ContentFilter.Modifier.Kind
import ContentFilter.Proofs.Fragment.Placement

/-!
# Errors that show their cause

An error says what is wrong and where, and the two have to fit. What fits is written down here, for
each cause: the characters at the span, and those right before and after it where the cause is about
what a character stands next to (`Cause.ShownBy`). An error with a span that begins and ends between
two characters of a text, and with characters there that show its cause, points at its cause in the
text (`SyntaxError.PointsAtCause`).

Readers call readers, each on a fragment of what it was given itself, and an error passes through
all of them unchanged. `Reading.Sound` is what each one is asked for, with the whole text in view:
whatever it refuses, it refuses with an error that points at its cause in that text, and whatever it
answers has the property that the next reader relies on. It holds of a sequence of readers if it
holds of each one.
-/

set_option autoImplicit false

namespace ContentFilter

/-- A text of white space. -/
def Text.AllWhite (t : Text) : Prop := ∀ c ∈ t, Text.isWhite c = true

instance (t : Text) : Decidable t.AllWhite := List.decidableBAll _ t

theorem Text.AllWhite.getLast?_ne {t : Text} (h : AllWhite t) {c : Char}
    (hc : isWhite c = false) : t.getLast? ≠ some c := by
  intro hlast
  have hwhite := h c (List.mem_of_getLast? hlast)
  rw [hc] at hwhite
  exact Bool.false_ne_true hwhite

theorem Text.AllWhite.append {s t : Text} (hs : AllWhite s) (ht : AllWhite t) :
    AllWhite (s ++ t) := by
  intro c hc
  exact (List.mem_append.mp hc).elim (hs c) (ht c)

theorem Text.trim_of_white {t : Text} (h : AllWhite t) : trim isWhite t = [] := by
  rw [trim, List.dropWhile_eq_nil_iff.mpr h]
  rfl

/-! ## What shows a cause -/

/-- What stands between `before` and `after` is a whole token of a modifier block, without the white
space around it. -/
structure IsToken (before token after : Text) : Prop where
  ne_nil : token ≠ []
  head : ∀ c, token.head? = some c → Text.isWhite c = false
  last : ∀ c, token.getLast? = some c → Text.isWhite c = false
  guarded : Text.Guarded ',' token
  opened : ∃ front c gap, before = front ++ c :: gap ∧ (c = '$' ∨ c = ',') ∧
    front.getLast? ≠ some '\\' ∧ Text.AllWhite gap
  closed : ∃ gap rest, after = gap ++ rest ∧ Text.AllWhite gap ∧
    (rest = [] ∨ ∃ c s, rest = c :: s ∧ (c = ',' ∨ c = ']') ∧ (token ++ gap).getLast? ≠ some '\\')

/-- A token is a name, behind the negation sign if it is negated, and up to the equals sign if it
has a value. -/
def Names (token : Text) (negated : Bool) (name : Text) : Prop :=
  ∃ gap rest, token = (if negated then ['~'] else []) ++ name ++ gap ++ rest ∧ Text.AllWhite gap ∧
    (rest = [] ∨ rest.head? = some '=')

/-- What is `shown` between `before` and `after` is a part of a scriptlet call, which reaches from
the mark of the call to the end of the rule. -/
def InCall (call before shown after : Text) : Prop :=
  ∃ marker : Marker, ∃ front back gap head tail, call = front ++ shown ++ back ∧
    before = head ++ marker.text ++ gap ++ CosmeticRule.scriptletMark ++ front ∧
    marker.isScript = true ∧ Text.AllWhite gap ∧ after = back ++ tail ∧ Text.AllWhite tail

/-- What is `shown` between `before` and `after` shows a cause. -/
def Cause.ShownBy (before shown after : Text) : Cause → Prop
  | .emptyItem => shown = [] ∨ ∃ separator : Separator, shown.head? = some separator.char
  | .multipleNegation => shown = ['~'] ∧ before.getLast? = some '~'
  | .separatorAfterNegation =>
    (∃ separator : Separator, shown = [separator.char]) ∧ before.getLast? = some '~'
  | .blankAfterNegation => (shown = [' '] ∨ shown = ['\t']) ∧ before.getLast? = some '~'
  | .separatorAtEnd => ∃ separator : Separator, shown = [separator.char]
  -- Such a rule is read as a network rule.
  | .notCosmetic => False
  | .emptyContent => Text.AllWhite shown ∧ ∃ marker : Marker, ∃ head, before = head ++ marker.text
  | .unterminatedModifiers => ∃ rest, shown = "[$".toList ++ rest ∧ Text.Guarded ']' rest
  | .emptyModifiers => shown = "[$]".toList
  | .modifierValueRequired name | .modifierValueForbidden name | .unknownModifier name
  | .modifierNotPermitted name | .negatedModifier name | .duplicateModifier name =>
    IsToken before shown after ∧ ∃ negated, Names shown negated name
  | .domainModifierConflict =>
    IsToken before shown after ∧ ∃ name rest, shown = name ++ rest ∧
      Text.foldCase name = "domain".toList
  | .invalidScriptlet call | .missingScriptletName call => InCall call before shown after
  | .emptyPattern => shown = Text.trim Text.isWhite (before ++ shown ++ after)

/-- The span of an error begins and ends between two characters of a text, and what stands there
shows its cause. -/
def SyntaxError.PointsAtCause (e : SyntaxError) (text : Text) : Prop :=
  ∃ before shown after, text = before ++ shown ++ after ∧
    e.span = ⟨Text.byteLength before, Text.byteLength (before ++ shown)⟩ ∧
    e.cause.ShownBy before shown after

/-- An error with the span of a fragment points at its cause if the fragment shows it. -/
theorem Fragment.StandsIn.pointsAtCause {f : Fragment} {text before after : Text}
    (h : f.StandsIn text before after) {cause : Cause}
    (hcause : cause.ShownBy before f.text after) :
    SyntaxError.PointsAtCause ⟨cause, f.span⟩ text :=
  ⟨before, f.text, after, h.text_eq, h.span_eq, hcause⟩

/-- The span of an error that points at its cause lies within the text. -/
theorem SyntaxError.PointsAtCause.bounds {e : SyntaxError} {text : Text}
    (h : e.PointsAtCause text) :
    e.span.start ≤ e.span.stop ∧ e.span.stop ≤ text.utf8Encode.size := by
  obtain ⟨before, shown, after, rfl, hspan, -⟩ := h
  rw [hspan, Text.size_utf8Encode]
  simp only [Text.byteLength_append]
  omega

/-! ## Readers that point at causes -/

/-- What a reader answers has a property, and what it refuses it refuses where it is wrong in a
text. -/
def Reading.Sound {α : Type} (text : Text) (property : α → Prop) : Reading α → Prop
  | .ok a => property a
  | .error e => e.PointsAtCause text

namespace Reading.Sound

variable {α β : Type} {text : Text} {P : α → Prop} {Q : β → Prop} {x : Reading α}

/-- A refusal is sound if it points at its cause. -/
theorem refuse {f : Fragment} {before after : Text} (h : f.StandsIn text before after)
    {cause : Cause} (hcause : cause.ShownBy before f.text after) :
    Sound text P (refuse cause f.span) :=
  h.pointsAtCause hcause

/-- Two sound readings are sound one after the other. -/
theorem bind {f : α → Reading β} (hx : Sound text P x) (hf : ∀ a, P a → Sound text Q (f a)) :
    Sound text Q (x >>= f) := by
  cases x with
  | ok a => exact hf a hx
  | error e => exact hx

theorem map {f : α → β} (hx : Sound text P x) (hf : ∀ a, P a → Q (f a)) :
    Sound text Q (x.map f) := by
  cases x with
  | ok a => exact hf a hx
  | error e => exact hx

/-- The errors of a sound reading point at their cause. -/
theorem pointsAtCause {e : SyntaxError} (hx : Sound text P x) (h : x = .error e) :
    e.PointsAtCause text := by
  rw [h] at hx
  exact hx

end Reading.Sound

end ContentFilter
