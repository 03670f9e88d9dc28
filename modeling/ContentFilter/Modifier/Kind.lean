import ContentFilter.Request.Type

/-!
# Kinds of modifiers

The modifiers that rules may carry form a closed registry. For each kind it gives the names
under which it is written, whether it takes a value, the kinds of rules it belongs in, and
whether it can be negated. Names are compared without regard to the case of ASCII letters, and
a name that is not in the registry is an error.

In the engine: `ModifierKind`, `ValueRequirement` (`ValueRule`), `RuleKinds`, `ModifierSpec`,
`REGISTRY` (`ModifierKind.spec`), `lookup` (`ModifierKind.named?`).
-/

set_option autoImplicit false

namespace ContentFilter

/-- The kinds of rules that carry modifiers. -/
inductive RuleKind where
  | networkBlock
  | networkAllow
  | cosmetic
deriving DecidableEq, Repr, Inhabited

namespace RuleKind

/-- Every kind of rule, in the order of their numbers. -/
def all : List RuleKind := [networkBlock, networkAllow, cosmetic]

instance : Flag RuleKind where
  count := 3
  number k := ⟨k.ctorIdx, by cases k <;> decide⟩
  member i := all.get i
  member_number k := by cases k <;> rfl
  number_member := by decide

end RuleKind

/-- A set of kinds of rules. -/
abbrev RuleKinds := FlagSet RuleKind

namespace RuleKinds

/-- The network rules of both kinds. -/
def network : RuleKinds := FlagSet.ofList [.networkBlock, .networkAllow]

/-- The network rules that make exceptions. -/
def allowing : RuleKinds := FlagSet.single .networkAllow

/-- The network rules that block. -/
def blocking : RuleKinds := FlagSet.single .networkBlock

/-- The cosmetic rules. -/
def cosmetic : RuleKinds := FlagSet.single .cosmetic

end RuleKinds

/-- Whether a modifier is written with a value. -/
inductive ValueRule where
  | forbidden
  | required
  | optional
deriving DecidableEq, Repr, Inhabited

/-- Every kind of modifier. -/
inductive ModifierKind where
  /-- Confines a rule to a request type or, negated, keeps it from one. -/
  | requestType (type : RequestType)
  /-- Extends a rule to every request type and to popups. -/
  | all
  | thirdParty
  | firstParty
  | important
  | matchCase
  | popup
  | badfilter
  | elemhide
  | generichide
  | specifichide
  | jsinject
  | content
  | urlblock
  | genericblock
  | domain
  | app
  | method
  | redirect
  | redirectRule
  | replace
  | path
  | url
deriving DecidableEq, Repr, Inhabited

/-- What the registry says about a kind of modifier. -/
structure ModifierSpec where
  names : List Text
  value : ValueRule
  /-- The rules it belongs in. -/
  ruleKinds : RuleKinds
  negatable : Bool

namespace ModifierSpec

/-- A modifier without a value. -/
def flag (names : List Text) (ruleKinds : RuleKinds) (negatable : Bool) : ModifierSpec :=
  ⟨names, .forbidden, ruleKinds, negatable⟩

/-- A modifier that takes a value; none of these can be negated. -/
def valued (names : List Text) (value : ValueRule) (ruleKinds : RuleKinds) : ModifierSpec :=
  ⟨names, value, ruleKinds, false⟩

end ModifierSpec

namespace ModifierKind

/-- The names of the modifier for a request type. -/
def typeNames : RequestType → List Text
  | .document => ["document".toList, "doc".toList]
  | .subdocument => ["subdocument".toList, "frame".toList]
  | .script => ["script".toList]
  | .stylesheet => ["stylesheet".toList, "css".toList]
  | .object => ["object".toList]
  | .image => ["image".toList]
  | .xmlHttpRequest => ["xmlhttprequest".toList, "xhr".toList]
  | .media => ["media".toList]
  | .font => ["font".toList]
  | .websocket => ["websocket".toList]
  | .ping => ["ping".toList]
  | .cspReport => ["csp_report".toList]
  | .other => ["other".toList]

/-- Every kind of modifier. -/
def every : List ModifierKind :=
  RequestType.all.map requestType ++
    [all, thirdParty, firstParty, important, matchCase, popup, badfilter, elemhide, generichide,
      specifichide, jsinject, content, urlblock, genericblock, domain, app, method, redirect,
      redirectRule, replace, path, url]

/-- The registry (`REGISTRY`). -/
def spec : ModifierKind → ModifierSpec
  | requestType t => .flag (typeNames t) .network true
  | all => .flag ["all".toList] .blocking false
  | thirdParty => .flag ["third-party".toList, "3p".toList] .network true
  | firstParty => .flag ["first-party".toList, "1p".toList] .network true
  | important => .flag ["important".toList] .network false
  | matchCase => .flag ["match-case".toList] .network false
  | popup => .flag ["popup".toList] .network false
  | badfilter => .flag ["badfilter".toList] .network false
  | elemhide => .flag ["elemhide".toList, "ehide".toList] .allowing false
  | generichide => .flag ["generichide".toList, "ghide".toList] .allowing false
  | specifichide => .flag ["specifichide".toList, "shide".toList] .allowing false
  | jsinject => .flag ["jsinject".toList] .allowing false
  | content => .flag ["content".toList] .allowing false
  | urlblock => .flag ["urlblock".toList] .allowing false
  | genericblock => .flag ["genericblock".toList] .allowing false
  | domain => .valued ["domain".toList] .required .full
  | app => .valued ["app".toList] .required .network
  | method => .valued ["method".toList] .required .network
  | redirect => .valued ["redirect".toList] .required .network
  | redirectRule => .valued ["redirect-rule".toList] .required .network
  -- A blocking rule needs the value all the same; its reader sees to that.
  | replace => .valued ["replace".toList] .optional .network
  | path => .valued ["path".toList] .required .cosmetic
  | url => .valued ["url".toList] .required .cosmetic

/-- Whether `name` is one of the names of a kind. -/
def isNamed (kind : ModifierKind) (name : Text) : Bool :=
  kind.spec.names.contains (Text.foldCase name)

/-- The kind of modifier that `name` names (`lookup`). -/
def named? (name : Text) : Option ModifierKind := every.find? (·.isNamed name)

end ModifierKind

end ContentFilter
