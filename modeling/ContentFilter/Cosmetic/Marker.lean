import ContentFilter.Text.Basic

/-!
# Cosmetic markers

A cosmetic rule is recognised by its marker, which stands between the domains of the rule and
its content and says what the content is for. Each of the six effects has a marker for rules
that apply it and one for rules that make an exception from it; the latter is the former with
`@` after its first character. No marker begins another, so at most one begins at any place of
a text.

In the engine: `CosmeticMarker` (`Marker`), `CosmeticMarker::find` (`split?`), `is_cosmetic`
(`occursIn`).
-/

set_option autoImplicit false

namespace ContentFilter

/-- What a cosmetic rule does to a page. -/
inductive Effect where
  | elementHiding
  /-- Hide elements chosen by an extended selector. -/
  | extendedElementHiding
  | css
  /-- Apply styles to elements chosen by an extended selector. -/
  | extendedCss
  | script
  /-- Remove elements from the page source. -/
  | html
deriving DecidableEq, Repr, Inhabited

namespace Effect

/-- Every effect. -/
def all : List Effect :=
  [elementHiding, extendedElementHiding, css, extendedCss, script, html]

/-- The characters around the `@` of an exception: the first one and the others. -/
def signs : Effect → Char × Text
  | elementHiding => ('#', "#".toList)
  | extendedElementHiding => ('#', "?#".toList)
  | css => ('#', "$#".toList)
  | extendedCss => ('#', "$?#".toList)
  | script => ('#', "%#".toList)
  | html => ('$', "$".toList)

end Effect

/-- The marker of a cosmetic rule. -/
structure Marker where
  /-- What the rule is about. -/
  effect : Effect
  /-- Whether the rule makes an exception. -/
  exception : Bool
deriving DecidableEq, Repr, Inhabited

namespace Marker

/-- Every marker. -/
def all : List Marker := Effect.all.flatMap fun e => [⟨e, false⟩, ⟨e, true⟩]

/-- The marker as written. -/
def text (m : Marker) : Text :=
  let (first, rest) := m.effect.signs
  if m.exception then first :: '@' :: rest else first :: rest

/-- Whether rules with this marker hold scripts. -/
def isScript (m : Marker) : Bool := m.effect == .script

/-- The marker that begins a text. -/
def starting? (t : Text) : Option Marker := all.find? fun m => m.text.isPrefixOf t

/-- A text split at a marker. -/
structure Split where
  /-- What stands before the marker. -/
  before : Text
  marker : Marker
  /-- What follows the marker. -/
  rest : Text
deriving DecidableEq, Repr, Inhabited

/-- Split a text at the first place where a marker begins (`CosmeticMarker::find`). -/
def split? (t : Text) : Option Split :=
  go [] t
where
  /-- The loop of `split?`; `seen` holds the characters passed, last one first. -/
  go (seen : Text) : Text → Option Split
    | [] => none
    | c :: rest =>
      match starting? (c :: rest) with
      | some m => some ⟨seen.reverse, m, (c :: rest).drop m.text.length⟩
      | none => go (c :: seen) rest

/-- Whether a marker stands anywhere in a text. -/
def occursIn (t : Text) : Bool := (split? t).isSome

end Marker

end ContentFilter
