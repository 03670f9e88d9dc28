import ContentFilter.Proofs.Request.DecisionTable
import ContentFilter.Proofs.Request.Precedence
import Mathlib.Data.List.Forall2

/-!
# Redirections for requests that another rule blocks

A rule can be marked as one that only says where to send requests that another rule blocks. The
mark is an option beside that of redirection, and neither the choice among the candidates nor the
decision looks at it. `acts_iff_of_redirectRule` says what this comes to.

Candidates may be marked or unmarked without any change to the action, as long as nothing else
about them changes. In particular, where all blocking candidates are marked, and so no other rule
blocks the request, the one that prevails is enforced like any blocking rule.

The first part holds because all that is read of a rule is whether it makes an exception, its other
options, its types and its value (`AgreeExcept`). The same tiers are filled in the same order
(`AgreeExcept.tier?_eq`), and the rules that prevail agree again.
-/

set_option autoImplicit false

namespace ContentFilter

/-- Two rules agree in all that is read of them when a request is decided on, except perhaps in one
option. -/
structure NetworkRule.AgreeExcept (option : RuleOption) (r r' : NetworkRule) : Prop where
  allowlist : r.allowlist = r'.allowlist
  has : ∀ o, o ≠ option → r.has o = r'.has o
  permittedTypes : r.permittedTypes = r'.permittedTypes
  advanced : r.advanced = r'.advanced

namespace NetworkRule.AgreeExcept

variable {r r' : NetworkRule} (h : AgreeExcept .redirectRule r r')

include h

/-- Rules that agree except in an option that no tier looks at are of the same tier. -/
theorem tier?_eq : r.tier? = r'.tier? := by
  have hhas : ∀ o, o ≠ .redirectRule → r.has o = r'.has o := h.has
  have hdisplay : r.concernsDisplay = r'.concernsDisplay := by
    simp only [concernsDisplay, hhas .elemhide (by decide), hhas .generichide (by decide),
      hhas .specifichide (by decide), hhas .jsinject (by decide), hhas .content (by decide),
      hhas .genericblock (by decide)]
  have hpage : r.exemptsPage = r'.exemptsPage := by
    rw [exemptsPage, exemptsPage, h.allowlist, hhas .document (by decide),
      hhas .urlblock (by decide)]
  rw [tier?, tier?, hhas .badfilter (by decide), hhas .important (by decide), h.allowlist, hpage,
    hdisplay]

/-- The action does not depend on the option. The event may, since it carries the rule. -/
theorem action_decide_eq (host : Host) (request : Request) :
    (host.decide (some r) request).action = (host.decide (some r') request).action := by
  have hpopup : r.has .popup = r'.has .popup := h.has .popup (by decide)
  have hredirection : host.redirection? r request = host.redirection? r' request := by
    rw [Host.redirection?, Host.redirection?, h.has .redirect (by decide), h.advanced]
  rw [Host.decide, Host.decide, h.allowlist, hpopup]
  by_cases hallow : r'.allowlist = true
  · rw [if_pos hallow, if_pos hallow]
    rfl
  · rw [if_neg hallow, if_neg hallow]
    by_cases habout : r'.has .popup = true
    · rw [if_pos habout, if_pos habout, Host.decidePopup, Host.decidePopup, h.permittedTypes]
      split
      · rfl
      · split <;> rfl
    · rw [if_neg habout, if_neg habout, Host.decideBlocking, Host.decideBlocking, hredirection,
        h.permittedTypes]
      cases host.redirection? r' request with
      | some url => rfl
      | none =>
        simp only []
        split
        · split <;> rfl
        · rfl

end NetworkRule.AgreeExcept

/-! ## Candidates that agree -/

section Agreeing

open NetworkRule

variable {candidates candidates' : List NetworkRule}
  (h : List.Forall₂ (AgreeExcept .redirectRule) candidates candidates')

include h

/-- Both tiers are empty, or their first candidates agree. -/
theorem Slots.get_rel (t : Tier) :
    Option.Rel (AgreeExcept .redirectRule) ((ofCandidates candidates).get t)
      ((ofCandidates candidates').get t) := by
  rw [get_ofCandidates, get_ofCandidates]
  induction h with
  | nil => exact .none
  | @cons r r' candidates candidates' hr _ ih =>
    rw [List.find?_cons, List.find?_cons, hr.tier?_eq]
    by_cases htier : r'.tier? = some t
    · rw [decide_eq_true htier]
      exact .some hr
    · rw [decide_eq_false htier]
      exact ih

/-- Of candidates that agree pairwise, those that prevail agree. -/
theorem Matching.prevailing_rel (hostRules hostRules' : List Rule) :
    Option.Rel (AgreeExcept .redirectRule) (ofCandidates candidates hostRules).prevailing
      (ofCandidates candidates' hostRules').prevailing := by
  rw [prevailing_eq_findSome?, prevailing_eq_findSome?]
  generalize Tier.page :: Slots.basicTiers = tiers
  induction tiers with
  | nil => exact .none
  | cons t tiers ih =>
    rw [List.findSome?_cons, List.findSome?_cons]
    have hslot := Slots.get_rel h t
    revert hslot
    generalize (Slots.ofCandidates candidates).get t = slot
    generalize (Slots.ofCandidates candidates').get t = slot'
    intro hslot
    cases hslot with
    | some hr => exact .some hr
    | none => exact ih

/-- Candidates that agree except in that option lead to the same action. -/
theorem Host.action_decide_prevailing_eq (host : Host) (request : Request)
    (hostRules hostRules' : List Rule) :
    (host.decide (Matching.ofCandidates candidates hostRules).prevailing request).action =
      (host.decide (Matching.ofCandidates candidates' hostRules').prevailing request).action := by
  have hprevailing := Matching.prevailing_rel h hostRules hostRules'
  revert hprevailing
  generalize (Matching.ofCandidates candidates hostRules).prevailing = winner
  generalize (Matching.ofCandidates candidates' hostRules').prevailing = winner'
  intro hprevailing
  cases hprevailing with
  | some hr => exact hr.action_decide_eq host request
  | none => rfl

end Agreeing

/-! ## Candidates of which all that block are marked -/

namespace Host

/-- **Marked candidates.** Where every blocking candidate that revokes no other is marked as acting
only on what another rule blocks, a request is acted on exactly if a marked candidate prevails and
does not pass over it. And the marks make no difference to what is done. -/
theorem acts_iff_of_redirectRule (host : Host) (request : Request) (hostRules : List Rule)
    {candidates : List NetworkRule}
    (hmarked : ∀ r ∈ candidates, r.allowlist = false → r.has .badfilter = false →
      r.has .redirectRule = true) :
    ((host.decide (Matching.ofCandidates candidates hostRules).prevailing request).action
        ≠ .noAction ↔
      ∃ r, Prevails (fun _ => True) candidates r ∧ r.allowlist = false ∧
        r.has .redirectRule = true ∧ ¬ host.PassesOver r request) ∧
    ∀ candidates', List.Forall₂ (NetworkRule.AgreeExcept .redirectRule) candidates candidates' →
      (host.decide (Matching.ofCandidates candidates' hostRules).prevailing request).action =
        (host.decide (Matching.ofCandidates candidates hostRules).prevailing request).action := by
  refine ⟨?_, fun candidates' h =>
    (action_decide_prevailing_eq h host request hostRules hostRules).symm⟩
  constructor
  · intro hacts
    obtain ⟨r, hr, henforces⟩ := (action_decide_eq_iff hacts).mp rfl
    have hprevails := (Matching.prevailing_eq_some_iff candidates hostRules).mp hr
    have hblocking := henforces.blocking
    have ⟨_, _, ⟨before, after, hsplit, hadmits, _⟩, _⟩ := hprevails
    have hmem : r ∈ candidates := by rw [hsplit]; simp
    refine ⟨r, hprevails, hblocking, hmarked r hmem hblocking hadmits.1, fun hpasses => ?_⟩
    exact (forall_not_enforces_iff_passesOver hblocking).mpr hpasses _ henforces
  · rintro ⟨r, hprevails, hblocking, -, hacts⟩
    rw [(Matching.prevailing_eq_some_iff candidates hostRules).mpr hprevails, ne_eq,
      action_decide_some_eq_noAction_iff hblocking]
    exact hacts

/-- A rule that redirects and is marked. -/
def marked : NetworkRule where
  id := ⟨1, 0⟩
  text := "||a.com^$redirect-rule=noopjs".toList
  pattern := "||a.com^".toList
  allowlist := false
  options := .ofList [.redirect, .redirectRule]
  advanced := some "noopjs".toList

/-- A request for a style sheet. -/
def stylesheetRequest : Request where
  url := "https://a.com/x.css".toList
  referrer := []
  types := .single .stylesheet
  tab := 0
  event := []

/-- A browser in which every value leads where it says. -/
def knowing : Host := ⟨fun value _ => value, fun _ => false⟩

/-- The only candidate is marked, and it is enforced. -/
theorem acts_marked :
    (∀ r ∈ [marked], r.allowlist = false → r.has .badfilter = false →
      r.has .redirectRule = true) ∧
    ∃ r, Prevails (fun _ => True) [marked] r ∧ r.allowlist = false ∧
      r.has .redirectRule = true ∧ ¬ knowing.PassesOver r stylesheetRequest := by
  have hmarked : ∀ r ∈ [marked], r.allowlist = false → r.has .badfilter = false →
      r.has .redirectRule = true := by decide
  have hacts : (knowing.decide (Matching.ofCandidates [marked] []).prevailing
      stylesheetRequest).action ≠ .noAction := by decide
  exact ⟨hmarked, (acts_iff_of_redirectRule knowing stylesheetRequest [] hmarked).1.mp hacts⟩

/-- A marked rule redirects although no other rule blocks the request. -/
theorem exists_acts_of_redirectRule :
    ¬ ∀ (host : Host) (request : Request) (hostRules : List Rule) (candidates : List NetworkRule),
      (∀ r ∈ candidates, r.allowlist = false → r.has .badfilter = false →
        r.has .redirectRule = true) →
      (host.decide (Matching.ofCandidates candidates hostRules).prevailing request).action
        = .noAction := by
  intro hall
  have hnone := hall knowing stylesheetRequest [] [marked] (by decide)
  exact absurd hnone (by decide)

end Host

end ContentFilter
