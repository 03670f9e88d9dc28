import ContentFilter.Request.Matching
import Mathlib.Data.List.Basic

/-!
# Precedence

Which rule prevails is settled in one pass with five slots. Here it is said without the slots:
there are five tiers, the options of a candidate put it in one of them or in none, and of the
highest tier that has a candidate the first candidate prevails.

Two facts bring the pass to this. Every slot holds the first candidate of its tier among those
gone through (`get_foldl_offer`, from the step `get_offer`), and the choice between the slots is
a search through the tiers from the highest down (`findSome?_get_eq_some_iff`).
-/

set_option autoImplicit false

namespace ContentFilter

/-! ## Tiers -/

/-- The tiers in which candidates compete. -/
inductive Tier where
  | block
  | allow
  | importantBlock
  | importantAllow
  | page
deriving DecidableEq, Repr

namespace Tier

/-- The higher one prevails. -/
def rank : Tier → Nat
  | block => 0
  | allow => 1
  | importantBlock => 2
  | importantAllow => 3
  | page => 4

/-- The options that make an exception one about what is shown on a page. -/
def displayOptions : List RuleOption :=
  [.elemhide, .generichide, .specifichide, .jsinject, .content, .genericblock]

/-- What an exception for single requests is: it does not exempt the whole page, and it is not
about display. -/
structure IsPlainException (r : NetworkRule) : Prop where
  allowlist : r.allowlist = true
  document : r.has .document = false
  urlblock : r.has .urlblock = false
  display : ∀ o ∈ displayOptions, r.has o = false

/-- What the options of a rule have to be for it to compete in a tier. A rule that revokes others
competes in none. -/
def Admits (t : Tier) (r : NetworkRule) : Prop :=
  r.has .badfilter = false ∧
    match t with
    | page => r.allowlist = true ∧ (r.has .document = true ∨ r.has .urlblock = true)
    | importantAllow => IsPlainException r ∧ r.has .important = true
    | importantBlock => r.allowlist = false ∧ r.has .important = true
    | allow => IsPlainException r ∧ r.has .important = false
    | block => r.allowlist = false ∧ r.has .important = false

/-- A rule competes in no tier if it revokes others, or is an exception that is about display and
does not exempt the whole page. -/
def IsDropped (r : NetworkRule) : Prop :=
  r.has .badfilter = true ∨
    r.allowlist = true ∧ r.has .document = false ∧ r.has .urlblock = false ∧
      ∃ o ∈ displayOptions, r.has o = true

theorem concernsDisplay_iff {r : NetworkRule} :
    r.concernsDisplay = true ↔ ∃ o ∈ displayOptions, r.has o = true := by
  simp [NetworkRule.concernsDisplay, displayOptions, or_assoc]

/-- The test for exceptions for single requests, as the pass makes it. -/
theorem isPlainException_iff {r : NetworkRule} :
    IsPlainException r ↔
      r.allowlist = true ∧ r.exemptsPage = false ∧ r.concernsDisplay = false := by
  constructor
  · rintro ⟨hallow, hdocument, hurlblock, hdisplay⟩
    refine ⟨hallow, ?_, ?_⟩
    · rw [NetworkRule.exemptsPage, hdocument, hurlblock, Bool.or_false, Bool.and_false]
    · rw [← Bool.not_eq_true, concernsDisplay_iff]
      rintro ⟨o, ho, hhas⟩
      rw [hdisplay o ho] at hhas
      exact nomatch hhas
  · rintro ⟨hallow, hpage, hdisplay⟩
    rw [NetworkRule.exemptsPage, hallow, Bool.true_and, Bool.or_eq_false_iff] at hpage
    rw [← Bool.not_eq_true, concernsDisplay_iff] at hdisplay
    refine ⟨hallow, hpage.1, hpage.2, fun o ho => ?_⟩
    rw [← Bool.not_eq_true]
    exact fun hhas => hdisplay ⟨o, ho, hhas⟩

end Tier

/-- The tier of a rule, found by the tests of the pass. -/
def NetworkRule.tier? (r : NetworkRule) : Option Tier :=
  if r.has .badfilter then none
  else if r.allowlist then
    if r.exemptsPage then some .page
    else if r.concernsDisplay then none
    else if r.has .important then some .importantAllow
    else some .allow
  else if r.has .important then some .importantBlock
  else some .block

/-- The tests of the pass find the tier that admits a rule. -/
theorem NetworkRule.tier?_eq_some_iff {r : NetworkRule} {t : Tier} :
    r.tier? = some t ↔ t.Admits r := by
  have hplain := Tier.isPlainException_iff (r := r)
  rw [NetworkRule.tier?]
  by_cases hbad : r.has .badfilter = true
  · rw [if_pos hbad]
    refine ⟨fun h => (nomatch h), fun h => ?_⟩
    rw [h.1] at hbad
    exact nomatch hbad
  · rw [if_neg hbad]
    rw [Bool.not_eq_true] at hbad
    -- The tests of the pass, against the options that a tier asks for.
    cases t with
    | page => simp only [Tier.Admits]; grind [NetworkRule.exemptsPage]
    | importantAllow | allow => simp only [Tier.Admits, hplain]; grind
    | importantBlock | block => simp only [Tier.Admits]; grind

/-- The tests of the pass find no tier exactly for the rules that are dropped. -/
theorem NetworkRule.tier?_eq_none_iff {r : NetworkRule} :
    r.tier? = none ↔ Tier.IsDropped r := by
  rw [NetworkRule.tier?, Tier.IsDropped, ← Tier.concernsDisplay_iff]
  grind [NetworkRule.exemptsPage]

/-- What competes in no tier is dropped. -/
theorem Tier.forall_not_admits_iff {r : NetworkRule} :
    (∀ t : Tier, ¬ t.Admits r) ↔ IsDropped r := by
  rw [← NetworkRule.tier?_eq_none_iff, Option.eq_none_iff_forall_ne_some]
  simp only [ne_eq, NetworkRule.tier?_eq_some_iff]

namespace Slots

/-! ## One slot for every tier -/

/-- The slot of a tier. -/
def get (s : Slots) : Tier → Option NetworkRule
  | .page => s.page
  | .importantAllow => s.importantAllow
  | .importantBlock => s.importantBlock
  | .allow => s.allow
  | .block => s.block

/-- **The step.** A candidate takes the slot of its tier if that is free, and no other. -/
theorem get_offer (s : Slots) (r : NetworkRule) (t : Tier) :
    (s.offer r).get t = if r.tier? = some t then (s.get t).or (some r) else s.get t := by
  rw [offer, NetworkRule.tier?]
  split
  · rfl
  · split
    · split
      · cases t <;> rfl
      · split
        · rfl
        · split <;> cases t <;> rfl
    · split <;> cases t <;> rfl

/-- **The run.** -/
theorem get_foldl_offer (candidates : List NetworkRule) (s : Slots) (t : Tier) :
    (candidates.foldl offer s).get t =
      (s.get t).or (candidates.find? (·.tier? = some t)) := by
  -- On the candidates to come, for whatever the slots hold by now.
  induction candidates generalizing s with
  | nil => rw [List.foldl_nil, List.find?_nil, Option.or_none]
  | cons r candidates ih =>
    rw [List.foldl_cons, ih, get_offer]
    by_cases ht : r.tier? = some t
    · rw [if_pos ht, List.find?_cons_of_pos (by simpa using ht), Option.or_assoc, Option.some_or]
    · rw [if_neg ht, List.find?_cons_of_neg (by simpa using ht)]

/-- A slot holds the first candidate of its tier. -/
theorem get_ofCandidates (candidates : List NetworkRule) (t : Tier) :
    (ofCandidates candidates).get t = candidates.find? (·.tier? = some t) := by
  rw [ofCandidates, get_foldl_offer]
  cases t <;> exact Option.none_or

end Slots

/-! ## The choice -/

/-- The first candidate of a tier, in the order in which the candidates are given. -/
def Tier.IsFirst (t : Tier) (candidates : List NetworkRule) (r : NetworkRule) : Prop :=
  ∃ before after, candidates = before ++ r :: after ∧ t.Admits r ∧
    ∀ earlier ∈ before, ¬ t.Admits earlier

/-- The first candidate of the highest of some tiers that has one. -/
def Prevails (among : Tier → Prop) (candidates : List NetworkRule) (r : NetworkRule) : Prop :=
  ∃ t, among t ∧ t.IsFirst candidates r ∧
    ∀ higher, among higher → t.rank < higher.rank →
      ∀ other ∈ candidates, ¬ higher.Admits other

namespace Slots

/-- A slot holds a rule exactly if it is the first one of its tier. -/
theorem get_eq_some_iff {candidates : List NetworkRule} {t : Tier} {r : NetworkRule} :
    (ofCandidates candidates).get t = some r ↔ t.IsFirst candidates r := by
  rw [get_ofCandidates, List.find?_eq_some_iff_append, Tier.IsFirst]
  simp only [decide_eq_true_eq, NetworkRule.tier?_eq_some_iff, Bool.not_eq_true',
    decide_eq_false_iff_not]
  constructor
  · rintro ⟨hadmits, before, after, hsplit, hbefore⟩
    exact ⟨before, after, hsplit, hadmits, hbefore⟩
  · rintro ⟨before, after, hsplit, hadmits, hbefore⟩
    exact ⟨hadmits, before, after, hsplit, hbefore⟩

/-- A slot is empty exactly if no candidate is of its tier. -/
theorem get_eq_none_iff {candidates : List NetworkRule} {t : Tier} :
    (ofCandidates candidates).get t = none ↔ ∀ other ∈ candidates, ¬ t.Admits other := by
  rw [get_ofCandidates, List.find?_eq_none]
  simp only [decide_eq_true_eq, NetworkRule.tier?_eq_some_iff]

/-- If the highest of some tiers has a candidate, its first one prevails. -/
theorem prevails_cons_of_first {t : Tier} {tiers : List Tier}
    (hbelow : ∀ t' ∈ tiers, t'.rank < t.rank) {candidates : List NetworkRule}
    {first r : NetworkRule} (hfirst : t.IsFirst candidates first) :
    Prevails (· ∈ t :: tiers) candidates r ↔ first = r := by
  constructor
  · rintro ⟨t', hmem, hr, hhigher⟩
    rcases List.mem_cons.mp hmem with rfl | hmem
    · rw [← get_eq_some_iff] at hfirst hr
      exact Option.some.inj (hfirst.symm.trans hr)
    · -- The tier of `first` is higher than that of `r`, and not empty.
      obtain ⟨before, after, rfl, hadmits, -⟩ := hfirst
      exact absurd hadmits (hhigher t List.mem_cons_self (hbelow t' hmem) first (by simp))
  · rintro rfl
    refine ⟨t, List.mem_cons_self, hfirst, fun higher hmem hrank => ?_⟩
    rcases List.mem_cons.mp hmem with rfl | hmem
    · exact absurd hrank (Nat.lt_irrefl _)
    · have := hbelow higher hmem
      omega

/-- A tier without candidates can be left out. -/
theorem prevails_cons_of_none {t : Tier} {tiers : List Tier} {candidates : List NetworkRule}
    {r : NetworkRule} (hnone : ∀ other ∈ candidates, ¬ t.Admits other) :
    Prevails (· ∈ t :: tiers) candidates r ↔ Prevails (· ∈ tiers) candidates r := by
  constructor
  · rintro ⟨t', hmem, hr, hhigher⟩
    rcases List.mem_cons.mp hmem with rfl | hmem
    · obtain ⟨before, after, rfl, hadmits, -⟩ := hr
      exact absurd hadmits (hnone r (by simp))
    · exact ⟨t', hmem, hr, fun higher hmem' => hhigher higher (List.mem_cons_of_mem _ hmem')⟩
  · rintro ⟨t', hmem, hr, hhigher⟩
    refine ⟨t', List.mem_cons_of_mem _ hmem, hr, fun higher hmem' hrank => ?_⟩
    rcases List.mem_cons.mp hmem' with rfl | hmem'
    · exact hnone
    · exact hhigher higher hmem' hrank

/-- Searching tiers from the highest down finds what prevails among them. -/
theorem findSome?_get_eq_some_iff {tiers : List Tier}
    (hdescending : tiers.Pairwise (fun t t' => t'.rank < t.rank))
    {candidates : List NetworkRule} {r : NetworkRule} :
    tiers.findSome? (ofCandidates candidates).get = some r ↔
      Prevails (· ∈ tiers) candidates r := by
  induction tiers with
  | nil => simp [Prevails]
  | cons t tiers ih =>
    obtain ⟨hbelow, hdescending⟩ := List.pairwise_cons.mp hdescending
    rw [List.findSome?_cons]
    cases hslot : (ofCandidates candidates).get t with
    | some first =>
      rw [prevails_cons_of_first hbelow (get_eq_some_iff.mp hslot)]
      exact ⟨Option.some.inj, congrArg some⟩
    | none =>
      rw [prevails_cons_of_none (get_eq_none_iff.mp hslot)]
      exact ih hdescending

/-- No slot of some tiers is filled exactly if they admit no candidate. -/
theorem findSome?_get_eq_none_iff {tiers : List Tier} {candidates : List NetworkRule} :
    tiers.findSome? (ofCandidates candidates).get = none ↔
      ∀ t ∈ tiers, ∀ r ∈ candidates, ¬ t.Admits r := by
  rw [List.findSome?_eq_none_iff]
  exact forall₂_congr fun t _ => get_eq_none_iff

/-- The tiers below that of whole pages, highest first. -/
def basicTiers : List Tier := [.importantAllow, .importantBlock, .allow, .block]

theorem mem_basicTiers {t : Tier} : t ∈ basicTiers ↔ t ≠ .page := by
  cases t <;> decide

/-- The rule for the single request is that of the highest tier below whole pages. -/
theorem basic_eq_findSome? (s : Slots) : s.basic = basicTiers.findSome? s.get := by
  simp only [basic, basicTiers, List.findSome?_cons, List.findSome?_nil, get]
  cases s.importantAllow <;> cases s.importantBlock <;> cases s.allow <;> cases s.block <;> rfl

end Slots

namespace Matching

open Slots

/-- The rule that prevails is in the highest slot that is filled. -/
theorem prevailing_eq_findSome? (candidates : List NetworkRule) (host : List Rule) :
    (ofCandidates candidates host).prevailing =
      (Tier.page :: basicTiers).findSome? (Slots.ofCandidates candidates).get := by
  rw [prevailing, ofCandidates, basic_eq_findSome?, List.findSome?_cons]
  show (Slots.get _ Tier.page).or _ = _
  cases (Slots.ofCandidates candidates).get .page <;> rfl

theorem mem_page_cons_basicTiers (t : Tier) : t ∈ Tier.page :: basicTiers := by
  cases t <;> decide

/-- The rule that the pass lets prevail is the first one of the highest tier. -/
theorem prevailing_eq_some_iff (candidates : List NetworkRule) (host : List Rule)
    {r : NetworkRule} :
    (ofCandidates candidates host).prevailing = some r ↔ Prevails (fun _ => True) candidates r := by
  have hall : (· ∈ Tier.page :: basicTiers) = fun _ => True :=
    funext fun t => eq_true (mem_page_cons_basicTiers t)
  rw [prevailing_eq_findSome?, findSome?_get_eq_some_iff (by decide), hall]

/-- **Precedence.** Whatever candidates there are and in whatever order, the rule that prevails is
the first candidate of the highest tier that has one, and there is none exactly if every candidate
is dropped. The basic rule is chosen in the same way from the tiers below that of whole pages, the
exception for the page is the first one in its tier, and the rules on the host stay what they
were. -/
theorem ofCandidates_precedence (candidates : List NetworkRule) (host : List Rule) :
    (∀ r, (ofCandidates candidates host).prevailing = some r ↔
      Prevails (fun _ => True) candidates r) ∧
    ((ofCandidates candidates host).prevailing = none ↔
      ∀ r ∈ candidates, Tier.IsDropped r) ∧
    (∀ r, (ofCandidates candidates host).basic = some r ↔
      Prevails (· ≠ .page) candidates r) ∧
    ((ofCandidates candidates host).basic = none ↔
      ∀ r ∈ candidates, ∀ t : Tier, t.Admits r → t = .page) ∧
    (∀ r, (ofCandidates candidates host).document = some r ↔
      Tier.page.IsFirst candidates r) ∧
    (ofCandidates candidates host).host = host := by
  have hbasic : (· ∈ basicTiers) = (· ≠ Tier.page) := funext fun t => propext mem_basicTiers
  refine ⟨fun r => prevailing_eq_some_iff candidates host, ?_, fun r => ?_, ?_,
    fun r => get_eq_some_iff (t := .page), rfl⟩
  · rw [prevailing_eq_findSome?, findSome?_get_eq_none_iff]
    simp only [← Tier.forall_not_admits_iff]
    exact ⟨fun h r hr t => h t (mem_page_cons_basicTiers t) r hr, fun h t _ r hr => h r hr t⟩
  · rw [ofCandidates, basic_eq_findSome?, findSome?_get_eq_some_iff (by decide), hbasic]
  · rw [ofCandidates, basic_eq_findSome?, findSome?_get_eq_none_iff]
    constructor
    · intro h r hr t hadmits
      by_contra hpage
      exact h t (mem_basicTiers.mpr hpage) r hr hadmits
    · intro h t ht r hr hadmits
      exact mem_basicTiers.mp ht (h r hr t hadmits)

end Matching

end ContentFilter
