import ContentFilter.Proofs.Modifier.Map
import ContentFilter.Proofs.Modifier.Validity

/-!
# Modifiers that the registry admits

What becomes of a modifier is decided by its kind, and most kinds are not for every rule. The
registry is asked once, while the token is read, and nobody asks again: where effects are had, a
modifier that only exceptions may carry is known to stand in one, and a value that is required is
there (`Modifier.Admitted`).

It is not only there. The value is what the token ends with, and tokens are trimmed, so the value
ends with a character that is not white space. A list of domains is never blank for this reason.
-/

set_option autoImplicit false

namespace ContentFilter

namespace Modifier

/-- The value is there, and it is not blank. -/
def HasValue (m : Modifier) : Prop :=
  ∃ list c, m.value = some list ∧ list.text.getLast? = some c ∧ Text.isWhite c = false

/-- The registry has nothing against the modifier in a rule of one of the kinds `ruleKinds`. -/
structure Admitted (ruleKinds : RuleKinds) (m : Modifier) : Prop where
  permitted : m.kind.spec.ruleKinds.meets ruleKinds = true
  value : m.kind.spec.value = .required → m.HasValue

/-- What is read from a token is admitted by the registry. -/
theorem admitted_of_read {ruleKinds : RuleKinds} {token : Fragment} {m : Modifier}
    (hlast : ∀ c, token.text.getLast? = some c → Text.isWhite c = false)
    (h : read ruleKinds token = .ok m) : m.Admitted ruleKinds := by
  have hread := isRead_of_read h
  refine ⟨hread.fits.permitted, fun hrequired => ?_⟩
  obtain ⟨text, htext, hne⟩ := hread.fits.required hrequired
  obtain ⟨list, hvalue, rfl⟩ := Option.map_eq_some_iff.mp htext
  obtain ⟨lead, htoken, -⟩ := Token.exists_lead_of_value (by rw [hread.parts_eq, hvalue])
  have hend := List.getLast?_eq_some_getLast hne
  refine ⟨list, _, hvalue, hend, hlast _ ?_⟩
  rw [htoken, List.getLast?_append_of_ne_nil _ hne, hend]

end Modifier

namespace ModifierMap

variable {ruleKinds : RuleKinds} {policy : DuplicatePolicy} {block : Fragment} {map : ModifierMap}

/-- Every modifier of a block is read from one of its tokens. -/
theorem exists_token_of_parse (h : parse ruleKinds policy block = .ok map) {m : Modifier}
    (hm : m ∈ map.entries) : ∃ token ∈ tokens block, Modifier.read ruleKinds token = .ok m := by
  obtain ⟨ms, hms, rfl⟩ := eq_foldl_put_of_readTokens h
  exact Reading.exists_mem_of_forall₂ (Reading.mapM_eq_ok_iff.mp hms)
    (mem_of_mem_entries_ofModifiers hm)

/-- What is read from a block was admitted, and there is one modifier of each kind at most. -/
theorem admitted_of_parse (h : parse ruleKinds policy block = .ok map) :
    (∀ m ∈ map.entries, m.Admitted ruleKinds) ∧ (map.entries.map (·.kind)).Nodup := by
  constructor
  · intro m hm
    obtain ⟨token, htoken, hread⟩ := exists_token_of_parse h hm
    refine Modifier.admitted_of_read (fun c hc => ?_) hread
    obtain ⟨⟨piece, -, rfl⟩, -⟩ := by
      simpa only [tokens, List.mem_filter, List.mem_map] using htoken
    exact Text.not_of_getLast?_dropTailWhile hc
  · obtain ⟨ms, -, rfl⟩ := eq_foldl_put_of_readTokens h
    exact nodup_kind_entries_ofModifiers ms

end ModifierMap

end ContentFilter
