import ContentFilter.Modifier.Reader
import ContentFilter.Network.Rule

/-!
# What modifiers add to a network rule

Whatever a modifier does to a rule it does by addition: it sets options, names or excludes
request types, and supplies lists and a value. A `Modifier.Effect` is such an addition. It
depends on the modifier and on whether the rule makes an exception, and on nothing else in the
rule.

In the engine: `request_type` (`typeEffect`), `flag_option` (`plainOption?`), `value_list`
(`readScope`), `apply_modifier` (`effect`, added by `NetworkRule.add`).
-/

set_option autoImplicit false

namespace ContentFilter

/-- What a modifier adds to a rule. What it does not mention stays as it is. -/
structure Modifier.Effect where
  options : RuleOptions := .empty
  permittedTypes : RequestTypes := .empty
  restrictedTypes : RequestTypes := .empty
  domains : Option Scope := none
  apps : Option Scope := none
  methods : Option Scope := none
  /-- The value of the modifier, if the rule is to keep it. -/
  advanced : Option (Option Text) := none
deriving DecidableEq, Inhabited

namespace Modifier.Effect

/-- An option is set. -/
def option (o : RuleOption) : Effect := { options := .single o }

end Modifier.Effect

/-- The rule with an effect added. -/
def NetworkRule.add (r : NetworkRule) (e : Modifier.Effect) : NetworkRule :=
  { r with
    options := r.options.union e.options
    permittedTypes := r.permittedTypes.union e.permittedTypes
    restrictedTypes := r.restrictedTypes.union e.restrictedTypes
    domains := e.domains.getD r.domains
    apps := e.apps.getD r.apps
    methods := e.methods.getD r.methods
    advanced := e.advanced.getD r.advanced }

namespace Modifier

/-- The option for which a modifier without further meaning stands (`flag_option`). -/
def plainOption? : ModifierKind → Option RuleOption
  | .important => some .important
  | .matchCase => some .matchCase
  | .popup => some .popup
  | .badfilter => some .badfilter
  | .elemhide => some .elemhide
  | .generichide => some .generichide
  | .specifichide => some .specifichide
  | .jsinject => some .jsinject
  | .content => some .content
  | .urlblock => some .urlblock
  | .genericblock => some .genericblock
  | _ => none

/-- The scope that the value of a modifier lists (`value_list`). -/
def readScope (m : Modifier) : Reading Scope :=
  match m.value with
  | some list => (ValueList.parse .pipe list).map ValueList.scope
  | none => .ok {}

/-- The effect of naming a request type or, negated, excluding it. Naming the document in an
exception exempts whole pages. -/
def typeEffect (allowlist negated : Bool) (type : RequestType) : Effect :=
  if negated then { restrictedTypes := .single type }
  else if allowlist && type == .document then
    { permittedTypes := .single type, options := .single .document }
  else { permittedTypes := .single type }

/-- What a modifier adds to a rule that makes an exception, or to one that does not
(`apply_modifier`). -/
def effect (allowlist : Bool) (m : Modifier) : Reading Effect :=
  match m.kind with
  | .requestType type => .ok (typeEffect allowlist m.negated type)
  | .all => .ok { permittedTypes := .full, options := .single .popup }
  | .thirdParty => .ok (.option (if m.negated then .firstParty else .thirdParty))
  | .firstParty => .ok (.option (if m.negated then .thirdParty else .firstParty))
  | .domain => m.readScope.map fun scope => { domains := some scope }
  | .app => m.readScope.map fun scope => { apps := some scope }
  | .method => m.readScope.map fun scope => { methods := some scope }
  | .redirect =>
    .ok { options := .single .redirect, advanced := some (m.value.map (·.text)) }
  | .redirectRule =>
    .ok { options := .ofList [.redirect, .redirectRule], advanced := some (m.value.map (·.text)) }
  | .replace =>
    let value := (m.value.map (·.text)).filter (!·.isEmpty)
    if value.isNone && !allowlist then refuse (.modifierValueRequired m.name) m.span
    else .ok { options := .single .replace, advanced := some value }
  | kind => .ok ((plainOption? kind).elim {} .option)

end Modifier

end ContentFilter
