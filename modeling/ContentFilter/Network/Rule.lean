import ContentFilter.Request.Type
import ContentFilter.Rule.Domain
import ContentFilter.Rule.Identity
import ContentFilter.ValueList

/-!
# Network rules

A network rule blocks, redirects or edits requests whose address fits its pattern, or makes an
exception from that. What it does beyond blocking is a set of options; what it is confined to
are request types, domains, applications and methods.

In the engine: `NetworkRuleOption` (`RuleOption`), `NetworkRule`, `is_option_enabled` (`has`),
`is_document_level_allowlist` (`exemptsPage`), `matches_permitted_domains` (`permits`),
`is_request_blocked_by_rule` (`blocks`).
-/

set_option autoImplicit false

namespace ContentFilter

/-- The options of a network rule. -/
inductive RuleOption where
  /-- Precedence over ordinary exceptions. -/
  | important
  /-- Letter case of addresses matters. -/
  | matchCase
  | thirdParty
  | firstParty
  | popup
  | redirect
  /-- The redirection is for requests that another rule blocks. -/
  | redirectRule
  /-- The response is edited. -/
  | replace
  /-- The exception is for whole pages. -/
  | document
  | elemhide
  | generichide
  | specifichide
  | jsinject
  | content
  | urlblock
  | genericblock
  /-- The rule only revokes another rule. -/
  | badfilter
deriving DecidableEq, Repr, Inhabited

namespace RuleOption

/-- Every option, in the order of their numbers. -/
def all : List RuleOption :=
  [important, matchCase, thirdParty, firstParty, popup, redirect, redirectRule, replace, document,
    elemhide, generichide, specifichide, jsinject, content, urlblock, genericblock, badfilter]

instance : Flag RuleOption where
  count := 17
  number o := ⟨o.ctorIdx, by cases o <;> decide⟩
  member i := all.get i
  member_number o := by cases o <;> rfl
  number_member := by decide

/-- The name of an option in a set of flags. -/
def flagName : RuleOption → Text
  | important => "IMPORTANT".toList
  | matchCase => "MATCH_CASE".toList
  | thirdParty => "THIRD_PARTY".toList
  | firstParty => "FIRST_PARTY".toList
  | popup => "POPUP".toList
  | redirect => "REDIRECT".toList
  | redirectRule => "REDIRECT_RULE".toList
  | replace => "REPLACE".toList
  | document => "DOCUMENT".toList
  | elemhide => "ELEMHIDE".toList
  | generichide => "GENERICHIDE".toList
  | specifichide => "SPECIFICHIDE".toList
  | jsinject => "JSINJECT".toList
  | content => "CONTENT".toList
  | urlblock => "URLBLOCK".toList
  | genericblock => "GENERICBLOCK".toList
  | badfilter => "BADFILTER".toList

end RuleOption

/-- A set of options. -/
abbrev RuleOptions := FlagSet RuleOption

/-- A network rule. -/
structure NetworkRule where
  id : RuleId
  /-- The rule as written. -/
  text : Text
  /-- The pattern of addresses, without exception mark and modifiers. -/
  pattern : Text
  /-- Whether the rule makes an exception. -/
  allowlist : Bool
  options : RuleOptions := .empty
  /-- The request types it names; none means that it is not confined to any. -/
  permittedTypes : RequestTypes := .empty
  /-- The request types it excludes. -/
  restrictedTypes : RequestTypes := .empty
  domains : Scope := {}
  apps : Scope := {}
  methods : Scope := {}
  /-- The value of the modifier that redirects or edits. -/
  advanced : Option Text := none
deriving DecidableEq, Inhabited

namespace NetworkRule

/-- Whether the rule has an option. -/
def has (r : NetworkRule) (option : RuleOption) : Bool := r.options.contains option

/-- Whether the rule exempts whole pages (`is_document_level_allowlist`). -/
def exemptsPage (r : NetworkRule) : Bool :=
  r.allowlist && (r.has .document || r.has .urlblock)

/-- Whether `domain` is permitted by name. -/
def permits (r : NetworkRule) (domain : Text) : Bool :=
  Domain.coveredByAny r.domains.permitted domain

/-- Whether a request that meets the rule is dropped, so far as the rule alone can tell
(`is_request_blocked_by_rule`). -/
def blocks (r : NetworkRule) : Bool := !r.allowlist && !r.has .replace && !r.has .redirect

end NetworkRule

end ContentFilter
