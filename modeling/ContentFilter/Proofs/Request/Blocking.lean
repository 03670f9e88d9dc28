import ContentFilter.Proofs.Request.DecisionTable

/-!
# Two judgements on blocking

`NetworkRule.blocks` tells from a rule alone whether the requests that meet it are dropped, while
a decision knows the request and what the browser answers. A rule that redirects is not counted
among those that drop requests, and what becomes of it is decided later: if no target is known,
the decision is that of the same rule without the redirection. So the two judgements differ on
such a rule where neither popups nor pages are in question, and among the rules that leave
responses unedited they differ nowhere else.
-/

set_option autoImplicit false

namespace ContentFilter

/-- A rule does not block if it makes an exception, edits or redirects. -/
theorem NetworkRule.blocks_eq_false_iff {r : NetworkRule} :
    r.blocks = false ↔ r.allowlist = true ∨ r.has .replace = true ∨ r.has .redirect = true := by
  rw [blocks]
  cases r.allowlist <;> cases r.has .replace <;> cases r.has .redirect <;> decide

namespace Host

/-- A request is dropped exactly if the table says so. -/
theorem action_decide_eq_cancel_iff (host : Host) (r : NetworkRule) (request : Request) :
    (host.decide (some r) request).action = .cancel ↔ host.Cancels r request := by
  rw [action_decide_eq_iff (by decide)]
  constructor
  · rintro ⟨r', hr', hcancels⟩
    obtain rfl := Option.some.inj hr'
    exact hcancels
  · exact fun hcancels => ⟨r, rfl, hcancels⟩

/-- A rule that edits no response and is judged not to drop requests drops one only for want of a
target. -/
theorem Cancels.redirect {host : Host} {r : NetworkRule} {request : Request}
    (h : host.Cancels r request) (hreplace : r.has .replace = false) (hblocks : r.blocks = false) :
    r.has .redirect = true := by
  rcases NetworkRule.blocks_eq_false_iff.mp hblocks with hallow | hedits | hredirect
  · exact absurd hallow (Bool.eq_false_iff.mp h.blocking)
  · exact absurd hedits (Bool.eq_false_iff.mp hreplace)
  · exact hredirect

/-- **Agreement.** A rule that is judged not to drop requests drops none if it makes an exception or
is about popups, if the request is for a page, or if a target is known. Where it edits no response
there is one case left: it redirects, and no target is known. -/
theorem cancel_iff_of_blocks_eq_false (host : Host) (request : Request) {r : NetworkRule}
    (hblocks : r.blocks = false) :
    (r.allowlist = true ∨ r.has .popup = true ∨ request.types = .single .document ∨
        (r.has .redirect = true ∧ ∃ url, host.redirectUrl? r.advanced request.url = some url) →
      (host.decide (some r) request).action ≠ .cancel) ∧
    (r.has .replace = false →
      ((host.decide (some r) request).action = .cancel ↔
        r.allowlist = false ∧ r.has .popup = false ∧ request.types ≠ .single .document ∧
          r.has .redirect = true ∧ host.redirectUrl? r.advanced request.url = none)) := by
  rw [action_decide_eq_cancel_iff, ne_eq, action_decide_eq_cancel_iff]
  constructor
  · rintro hkept hcancels
    rcases hkept with hallow | hpopup | hdocument | ⟨hredirect, url, hurl⟩
    · exact Bool.eq_false_iff.mp hcancels.blocking hallow
    · exact Bool.eq_false_iff.mp hcancels.notPopup hpopup
    · exact hcancels.notDocument hdocument
    · rcases hcancels.noTarget with hnone | hnone
      · exact Bool.eq_false_iff.mp hnone hredirect
      · rw [hurl] at hnone
        exact nomatch hnone
  · intro hreplace
    constructor
    · intro hcancels
      have hredirect := hcancels.redirect hreplace hblocks
      have htarget : host.redirectUrl? r.advanced request.url = none :=
        hcancels.noTarget.resolve_left fun h => Bool.eq_false_iff.mp h hredirect
      exact ⟨hcancels.blocking, hcancels.notPopup, hcancels.notDocument, hredirect, htarget⟩
    · rintro ⟨hblocking, hpopup, hdocument, -, htarget⟩
      exact ⟨hblocking, hpopup, hdocument, .inr htarget⟩

/-- A rule that redirects whatever it meets. -/
def redirecting : NetworkRule where
  id := ⟨0, 0⟩
  text := "||a.com^$redirect=noopjs".toList
  pattern := "||a.com^".toList
  allowlist := false
  options := .single .redirect
  advanced := some "noopjs".toList

/-- A request for a script. -/
def scriptRequest : Request where
  url := "https://a.com/x.js".toList
  referrer := []
  types := .single .script
  tab := 0
  event := []

/-- With a target for each redirection the request is not dropped. -/
theorem not_cancel_redirecting :
    redirecting.blocks = false ∧
      (Host.decide ⟨fun value _ => value, fun _ => false⟩ (some redirecting) scriptRequest).action
        ≠ .cancel := by
  have hblocks : redirecting.blocks = false := by decide
  have hredirect : redirecting.has .redirect = true := by decide
  have hagree := cancel_iff_of_blocks_eq_false ⟨fun value _ => value, fun _ => false⟩ scriptRequest
    hblocks
  exact ⟨hblocks, hagree.1 (.inr (.inr (.inr ⟨hredirect, "noopjs".toList, rfl⟩)))⟩

/-- A rule judged not to drop requests has one dropped, since no target is known. -/
theorem exists_cancel_of_blocks_eq_false :
    ¬ ∀ (host : Host) (r : NetworkRule) (request : Request), r.blocks = false →
      (host.decide (some r) request).action ≠ .cancel := by
  intro h
  have hcancels : Cancels ⟨fun _ _ => none, fun _ => false⟩ redirecting scriptRequest :=
    ⟨rfl, by decide, by decide, .inr rfl⟩
  exact h _ redirecting scriptRequest (by decide) ((action_decide_eq_cancel_iff _ _ _).mpr hcancels)

end Host

end ContentFilter
