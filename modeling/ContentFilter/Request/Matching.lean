import ContentFilter.Rule.Basic

/-!
# The prevailing rule

Several rules may fit a request. They are gone through once, and the first of every tier is kept:
exceptions for whole pages; then, important ones before the others, exceptions and blocking
rules. Rules that only revoke others, and exceptions that only concern what is shown on a page,
do not compete.

In the engine: `COSMETIC_EXCEPTION_OPTIONS` (`concernsDisplay`), `MatchingResult` (`Matching`),
`from_candidates` (`Slots.offer` and `ofCandidates`), `basic_result` (`prevailing`).
-/

set_option autoImplicit false

namespace ContentFilter

namespace NetworkRule

/-- Whether the options make an exception one about what is shown on a page. -/
def concernsDisplay (r : NetworkRule) : Bool :=
  r.has .elemhide || r.has .generichide || r.has .specifichide || r.has .jsinject
    || r.has .content || r.has .genericblock

end NetworkRule

/-- The first candidates met so far, by tier. -/
structure Slots where
  /-- Exceptions for whole pages. -/
  page : Option NetworkRule := none
  /-- Exceptions that stop important blocking rules too. -/
  importantAllow : Option NetworkRule := none
  /-- Blocking rules that ordinary exceptions do not stop. -/
  importantBlock : Option NetworkRule := none
  allow : Option NetworkRule := none
  block : Option NetworkRule := none
deriving Inhabited

namespace Slots

/-- Go on to a candidate. -/
def offer (s : Slots) (r : NetworkRule) : Slots :=
  if r.has .badfilter then s
  else if r.allowlist then
    if r.exemptsPage then { s with page := s.page.or (some r) }
    else if r.concernsDisplay then s
    else if r.has .important then { s with importantAllow := s.importantAllow.or (some r) }
    else { s with allow := s.allow.or (some r) }
  else if r.has .important then { s with importantBlock := s.importantBlock.or (some r) }
  else { s with block := s.block.or (some r) }

/-- Go through the candidates, given in order. -/
def ofCandidates (candidates : List NetworkRule) : Slots := candidates.foldl offer {}

/-- The first candidate of the highest tier that has one, whole pages left aside. -/
def basic (s : Slots) : Option NetworkRule :=
  ((s.importantAllow.or s.importantBlock).or s.allow).or s.block

end Slots

/-- The rules selected for a request. -/
structure Matching where
  /-- The rule that prevails below the tier of whole pages. -/
  basic : Option NetworkRule
  /-- The rules on the host itself, as they were handed in. -/
  host : List Rule
  /-- The exception for the whole page. -/
  document : Option NetworkRule
deriving Inhabited

namespace Matching

/-- Select from the candidates, given in order. -/
def ofCandidates (candidates : List NetworkRule) (host : List Rule) : Matching :=
  let slots := Slots.ofCandidates candidates
  ⟨slots.basic, host, slots.page⟩

/-- The rule that prevails (`MatchingResult::basic_result`). -/
def prevailing (m : Matching) : Option NetworkRule := m.document.or m.basic

end Matching

end ContentFilter
