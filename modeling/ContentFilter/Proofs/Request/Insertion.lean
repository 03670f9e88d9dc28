import ContentFilter.Proofs.Request.DecisionTable
import ContentFilter.Proofs.Request.Precedence

/-!
# One blocking rule more

A rule that is added to the candidates of a request changes one slot at most, that of its own tier,
and there it only takes a place that is free or comes to stand in front of the rule that had it. So
the rule that prevails stays what it was or is the one that was added (`prevailing_insert`).

If it stays, the decision stays. If the added rule takes over, the decision is that on the added
rule alone, and this can be to do nothing: a rule about popups passes over everything that is no
popup, and a rule about what pages load passes over the page. Then a request is let through that
would have been stopped, and `isEnforcement_insert_iff` says that this is the only way for it to
happen.
-/

set_option autoImplicit false

namespace ContentFilter

/-! ## Which rule prevails -/

/-- With the candidate in the tier every slot holds what it held, or the candidate. -/
theorem Slots.get_insert (before after : List NetworkRule) (r : NetworkRule) (t : Tier) :
    (ofCandidates (before ++ r :: after)).get t = (ofCandidates (before ++ after)).get t ∨
      (ofCandidates (before ++ r :: after)).get t = some r := by
  rw [get_ofCandidates, get_ofCandidates, List.find?_append, List.find?_append, List.find?_cons]
  cases before.find? (·.tier? = some t) with
  | some first => exact .inl rfl
  | none =>
    by_cases htier : r.tier? = some t
    · rw [decide_eq_true htier]
      exact .inr rfl
    · rw [decide_eq_false htier]
      exact .inl rfl

/-- A search over slots of which each holds what it held, or `r`, finds what it found, or `r`. -/
private theorem findSome?_eq_or {slot slot' : Tier → Option NetworkRule} {r : NetworkRule}
    (h : ∀ t, slot' t = slot t ∨ slot' t = some r) (tiers : List Tier) :
    tiers.findSome? slot' = tiers.findSome? slot ∨ tiers.findSome? slot' = some r := by
  induction tiers with
  | nil => exact .inl rfl
  | cons t tiers ih =>
    rw [List.findSome?_cons, List.findSome?_cons]
    rcases h t with hkept | htaken
    · rw [hkept]
      cases slot t with
      | some first => exact .inl rfl
      | none => exact ih
    · rw [htaken]
      exact .inr rfl

/-- A candidate more either prevails or changes nothing. -/
theorem Matching.prevailing_insert (before after : List NetworkRule) (r : NetworkRule)
    (hostRules : List Rule) :
    (ofCandidates (before ++ r :: after) hostRules).prevailing =
        (ofCandidates (before ++ after) hostRules).prevailing ∨
      (ofCandidates (before ++ r :: after) hostRules).prevailing = some r := by
  rw [prevailing_eq_findSome?, prevailing_eq_findSome?]
  exact findSome?_eq_or (Slots.get_insert before after r) _

/-! ## What is decided -/

/-- Every action but one enforces something. -/
theorem Action.isEnforcement_iff {a : Action} : a.isEnforcement = true ↔ a ≠ .noAction := by
  cases a <;> simp [isEnforcement]

namespace Host

/-- **One blocking rule more.** Where a request was acted on, it is acted on with a further blocking
rule among the candidates, wherever it is put, unless this rule prevails and passes over the
request. -/
theorem isEnforcement_insert_iff (host : Host) (request : Request) (hostRules : List Rule)
    {before after : List NetworkRule} {r : NetworkRule} (hblocking : r.allowlist = false)
    (henforced : (host.decide (Matching.ofCandidates (before ++ after) hostRules).prevailing
      request).action.isEnforcement = true) :
    (host.decide (Matching.ofCandidates (before ++ r :: after) hostRules).prevailing
        request).action.isEnforcement = true ↔
      ¬ (Prevails (fun _ => True) (before ++ r :: after) r ∧ host.PassesOver r request) := by
  rw [← Matching.prevailing_eq_some_iff _ hostRules]
  by_cases htaken : (Matching.ofCandidates (before ++ r :: after) hostRules).prevailing = some r
  · rw [htaken, Action.isEnforcement_iff, ne_eq, action_decide_some_eq_noAction_iff hblocking]
    simp only [true_and]
  · have hkept := (Matching.prevailing_insert before after r hostRules).resolve_right htaken
    rw [hkept] at htaken ⊢
    exact iff_of_true henforced fun h => htaken h.1

/-- A rule that blocks whatever it meets. -/
def plain : NetworkRule where
  id := ⟨1, 0⟩
  text := "||a.com^".toList
  pattern := "||a.com^".toList
  allowlist := false

/-- A rule about popups. -/
def aboutPopups : NetworkRule where
  id := ⟨1, 1⟩
  text := "||a.com^$popup".toList
  pattern := "||a.com^".toList
  allowlist := false
  options := .single .popup

/-- A request for an image, in a tab that is no popup. -/
def imageRequest : Request where
  url := "https://a.com/x.png".toList
  referrer := []
  types := .single .image
  tab := 0
  event := []

/-- A browser without popups that knows no targets. -/
def unknowing : Host := ⟨fun _ _ => none, fun _ => false⟩

/-- Put behind the rule that prevails, a rule about popups changes nothing. -/
theorem isEnforcement_insert_aboutPopups :
    aboutPopups.allowlist = false ∧
      (unknowing.decide (Matching.ofCandidates ([plain] ++ []) []).prevailing
        imageRequest).action.isEnforcement = true ∧
      ¬ (Prevails (fun _ => True) ([plain] ++ [aboutPopups]) aboutPopups ∧
        unknowing.PassesOver aboutPopups imageRequest) := by
  have hbefore : (unknowing.decide (Matching.ofCandidates ([plain] ++ []) []).prevailing
      imageRequest).action.isEnforcement = true := by decide
  have hafter : (unknowing.decide (Matching.ofCandidates ([plain] ++ [aboutPopups]) []).prevailing
      imageRequest).action.isEnforcement = true := by decide
  exact ⟨rfl, hbefore, (isEnforcement_insert_iff unknowing imageRequest [] rfl hbefore).mp hafter⟩

/-- Put in front of it, the rule about popups takes over and lets the image through. -/
theorem exists_not_isEnforcement_insert :
    ¬ ∀ (host : Host) (request : Request) (hostRules : List Rule) (before after : List NetworkRule)
      (r : NetworkRule), r.allowlist = false →
        (host.decide (Matching.ofCandidates (before ++ after) hostRules).prevailing
          request).action.isEnforcement = true →
        (host.decide (Matching.ofCandidates (before ++ r :: after) hostRules).prevailing
          request).action.isEnforcement = true := by
  intro hall
  have hkept := hall unknowing imageRequest [] [] [plain] aboutPopups rfl (by decide)
  exact absurd hkept (by decide)

end Host

end ContentFilter
