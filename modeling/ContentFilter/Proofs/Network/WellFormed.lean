import ContentFilter.Proofs.Network.Effect
import ContentFilter.Proofs.Network.Steps
import Mathlib.Data.List.Nodup

/-!
# What every network rule keeps to

A network rule that was read is more than its type says. Options go together, values are there
where they are needed, and what a list holds are values. None of this is checked when the rule is
made; it comes from the stages before that, and `wellFormed_of_parse` collects it.

The stages meet where effects are added to the rule. Adding a sound effect keeps `Built`, which says
what the modifiers added so far have made of the rule. Two facts about the whole map come in at the
end. A type is not both permitted and excluded, since the map has one modifier of its kind; and a
rule without a pattern has a domain, since the map has a domain modifier.
-/

set_option autoImplicit false

namespace ContentFilter.NetworkRule

/-! ## The modifiers one after the other -/

/-- What the modifiers `ms` have made of a rule. -/
structure Built (ms : List Modifier) (r : NetworkRule) : Prop where
  exempting : r.allowlist = false → ∀ o ∈ Modifier.exemptions, r.has o = false
  redirectRule : r.has .redirectRule = true → r.has .redirect = true
  used : ∀ v, r.advanced = some v → r.has .redirect = true ∨ r.has .replace = true
  value : r.allowlist = false → r.has .redirect = true ∨ r.has .replace = true →
    ∃ v, r.advanced = some v ∧ v ≠ []
  permitted : ∀ t, r.permittedTypes.contains t = true →
    (∀ t', r.permittedTypes.contains t' = true) ∨
      ∃ m ∈ ms, m.kind = .requestType t ∧ m.negated = false
  restricted : ∀ t, r.restrictedTypes.contains t = true →
    ∃ m ∈ ms, m.kind = .requestType t ∧ m.negated = true
  confined : (∃ m ∈ ms, m.kind = .domain) → r.domains.Restricts
  listed : r.domains.Listed ∧ r.apps.Listed ∧ r.methods.Listed

/-- The bare rule is what no modifiers make. -/
theorem built_bare (id : RuleId) (text pattern : Text) (allowlist : Bool) :
    (bare id text pattern allowlist).Built [] := by
  have hhas : ∀ o, (bare id text pattern allowlist).has o = false :=
    fun o => FlagSet.contains_empty o
  have hlisted : Scope.Listed {} := by simp [Scope.Listed]
  exact {
    exempting := fun _ o _ => hhas o
    redirectRule := by simp [hhas]
    used := nofun
    value := by simp [hhas]
    permitted := by simp [bare]
    restricted := by simp [bare]
    confined := by simp
    listed := ⟨hlisted, hlisted, hlisted⟩ }

section Add

variable {r : NetworkRule} {ms : List Modifier} {m : Modifier} {e : Modifier.Effect}

/-- Adding an effect makes a rule redirect or edit exactly if the effect does. -/
theorem uses_add (r : NetworkRule) (e : Modifier.Effect) :
    ((r.add e).has .redirect = true ∨ (r.add e).has .replace = true) ↔
      (r.has .redirect = true ∨ r.has .replace = true) ∨ e.UsesValue := by
  rw [has_add, has_add, Modifier.Effect.UsesValue]
  simp only [Bool.or_eq_true]
  tauto

/-- A scope that takes the place of another can be held by a list if both can. -/
theorem listed_getD {s : Option Scope} {s' : Scope} (h : ∀ x, s = some x → x.Listed)
    (h' : s'.Listed) : (s.getD s').Listed := by
  cases s with
  | none => exact h'
  | some x => exact h x rfl

/-- **One effect.** -/
theorem Built.add (h : r.Built ms) (he : e.Sound r.allowlist m) : (r.add e).Built (ms ++ [m]) where
  exempting hblocking o ho := by
    rw [has_add, h.exempting hblocking o ho, he.exempting hblocking o ho, Bool.or_false]
  redirectRule := by
    rw [has_add, has_add, Bool.or_eq_true, Bool.or_eq_true]
    exact Or.imp h.redirectRule he.redirectRule
  used v hv := by
    rw [uses_add]
    change e.advanced.getD r.advanced = some v at hv
    cases hadvanced : e.advanced with
    | none => rw [hadvanced] at hv; exact .inl (h.used v hv)
    | some v' => rw [hadvanced] at hv; exact .inr (he.used v (by rw [hadvanced, ← hv]; rfl))
  value hblocking huses := by
    show ∃ v, e.advanced.getD r.advanced = some v ∧ v ≠ []
    rw [uses_add] at huses
    cases hadvanced : e.advanced with
    | some v => exact he.value hblocking v hadvanced
    | none =>
      refine h.value hblocking (huses.resolve_right fun huse => ?_)
      obtain ⟨v, hv⟩ := he.supplied huse
      rw [hadvanced] at hv
      exact nomatch hv
  permitted t ht := by
    rw [show (r.add e).permittedTypes = r.permittedTypes.union e.permittedTypes from rfl] at ht ⊢
    simp only [FlagSet.contains_union, Bool.or_eq_true] at ht ⊢
    rcases ht with ht | ht
    · refine (h.permitted t ht).imp (fun hall t' => .inl (hall t')) ?_
      rintro ⟨m', hm', hkind⟩
      exact ⟨m', List.mem_append_left _ hm', hkind⟩
    · refine (he.permitted t ht).imp (fun hfull t' => .inr ?_) fun hkind => ⟨m, by simp, hkind⟩
      rw [hfull, FlagSet.contains_full]
  restricted t ht := by
    rw [show (r.add e).restrictedTypes = r.restrictedTypes.union e.restrictedTypes from rfl,
      FlagSet.contains_union, Bool.or_eq_true] at ht
    rcases ht with ht | ht
    · obtain ⟨m', hm', hkind⟩ := h.restricted t ht
      exact ⟨m', List.mem_append_left _ hm', hkind⟩
    · exact ⟨m, by simp, he.restricted t ht⟩
  confined := by
    rintro ⟨m', hm', hkind⟩
    show (e.domains.getD r.domains).Restricts
    -- A later list could only take the place of the domains if it had some itself.
    cases hdomains : e.domains with
    | some s => exact (he.listed s (.inl hdomains)).2
    | none =>
      refine h.confined ⟨m', ?_, hkind⟩
      rcases List.mem_append.mp hm' with hm' | hm'
      · exact hm'
      · obtain rfl := List.mem_singleton.mp hm'
        obtain ⟨s, hs⟩ := he.confined hkind
        rw [hdomains] at hs
        exact nomatch hs
  listed := ⟨listed_getD (fun s hs => (he.listed s (.inl hs)).1) h.listed.1,
    listed_getD (fun s hs => (he.listed s (.inr (.inl hs))).1) h.listed.2.1,
    listed_getD (fun s hs => (he.listed s (.inr (.inr hs))).1) h.listed.2.2⟩

end Add

/-- **All of them.** -/
theorem Built.applyAll {r r' : NetworkRule} {ms ms' : List Modifier} (h : r.Built ms)
    (hms' : ∀ m ∈ ms', m.Admitted (ruleKinds r.allowlist)) (hr' : r.applyAll ms' = .ok r') :
    r'.Built (ms ++ ms') := by
  induction ms' generalizing r ms with
  | nil =>
    obtain rfl := Except.ok.inj hr'
    rwa [List.append_nil]
  | cons m ms' ih =>
    obtain ⟨r₁, hr₁, hr'⟩ := Reading.bind_eq_ok_iff.mp hr'
    obtain ⟨e, he, rfl⟩ := Reading.map_eq_ok_iff.mp hr₁
    have hsound := (hms' m List.mem_cons_self).sound_effect he
    have hbuilt := ih (h.add hsound) (fun m' hm' => hms' m' (List.mem_cons_of_mem m hm')) hr'
    rwa [List.append_assoc] at hbuilt

/-- A type is permitted by one modifier and excluded by another, and no two are of its kind. -/
theorem Built.disjoint_types {r : NetworkRule} {ms : List Modifier} (h : r.Built ms)
    (hnodup : (ms.map (·.kind)).Nodup) :
    (∀ t, r.permittedTypes.contains t = true) ∨
      ∀ t, r.permittedTypes.contains t = true → r.restrictedTypes.contains t = false := by
  refine or_iff_not_imp_left.mpr fun hsome t hpermitted => ?_
  by_contra hrestricted
  rw [Bool.not_eq_false] at hrestricted
  obtain ⟨m, hm, hkind, hplain⟩ := (h.permitted t hpermitted).resolve_left hsome
  obtain ⟨m', hm', hkind', hnegated⟩ := h.restricted t hrestricted
  obtain rfl := List.inj_on_of_nodup_map hnodup hm hm' (hkind.trans hkind'.symm)
  rw [hplain] at hnegated
  exact nomatch hnegated

/-! ## The parts of the text -/

/-- What stands behind a pattern: nothing, or a block in which every `$` is guarded. -/
def FollowsPattern (rest : Text) : Prop :=
  rest = [] ∨ ∃ block, rest = blockOpening :: block ∧ Text.Guarded blockOpening block

/-- What stands behind the mark is the pattern and, perhaps, a block. -/
theorem Parts.exists_ofBody (allowlist : Bool) (body : Fragment) :
    (ofBody allowlist body).allowlist = allowlist ∧
      ∃ rest, body.text = (ofBody allowlist body).pattern ++ rest ∧ FollowsPattern rest := by
  rw [ofBody]
  split
  · rename_i pattern block hsplit
    refine ⟨rfl, blockOpening :: block.text, ?_⟩
    split at hsplit
    · cases hsplit
    · obtain ⟨⟨p, q⟩, hparts, haround⟩ := Option.map_eq_some_iff.mp hsplit
      obtain ⟨rfl, rfl⟩ := Prod.mk.inj haround
      obtain ⟨d, hbody, hd⟩ := Text.exists_of_splitLast? hparts
      simp only [Text.unescaped, Bool.and_eq_true, beq_iff_eq] at hd
      obtain ⟨rfl, -⟩ := hd
      exact ⟨hbody, .inr ⟨q, rfl, Text.guarded_of_splitLast? (by decide) hparts⟩⟩
  · exact ⟨rfl, [], (List.append_nil _).symm, .inl rfl⟩

/-- A rule is its mark, its pattern and, perhaps, a block. -/
theorem Parts.exists_ofFragment (rule : Fragment) :
    ∃ rest, rule.text = (if (ofFragment rule).allowlist then allowlistMark else []) ++
      (ofFragment rule).pattern ++ rest ∧ FollowsPattern rest := by
  rw [ofFragment]
  cases hmark : rule.strip? allowlistMark with
  | some body =>
    obtain ⟨hallow, rest, hbody, hrest⟩ := exists_ofBody true body
    refine ⟨rest, ?_, hrest⟩
    rw [hallow, if_pos rfl, List.append_assoc, ← hbody]
    exact (Fragment.exists_of_strip? hmark).1
  | none =>
    obtain ⟨hallow, rest, hbody, hrest⟩ := exists_ofBody false rule
    refine ⟨rest, ?_, hrest⟩
    rw [hallow, if_neg Bool.false_ne_true, List.nil_append, ← hbody]

/-! ## The rule -/

/-- The modifiers of a rule are admitted for its kind, and each kind occurs once. -/
theorem admitted_of_readModifiers {policy : DuplicatePolicy} {parts : Parts}
    {modifiers : ModifierMap} (h : readModifiers policy parts = .ok modifiers) :
    (∀ m ∈ modifiers.entries, m.Admitted (ruleKinds parts.allowlist)) ∧
      (modifiers.entries.map (·.kind)).Nodup := by
  rw [readModifiers] at h
  split at h
  · exact ModifierMap.admitted_of_parse h
  · obtain rfl := Except.ok.inj h
    exact ⟨nofun, .nil⟩

/-- What a network rule keeps to that was read from `text`. -/
structure WellFormed (text : Text) (r : NetworkRule) : Prop where
  written : ∃ rest, text = (if r.allowlist then allowlistMark else []) ++ r.pattern ++ rest ∧
    FollowsPattern rest
  /-- Without a pattern the rule is confined to domains or kept from some. -/
  confined : r.pattern = [] → r.domains.permitted ≠ [] ∨ r.domains.restricted ≠ []
  exempting : r.allowlist = false → ∀ o ∈ Modifier.exemptions, r.has o = false
  redirectRule : r.has .redirectRule = true → r.has .redirect = true
  used : ∀ v, r.advanced = some v → r.has .redirect = true ∨ r.has .replace = true
  value : r.allowlist = false → r.has .redirect = true ∨ r.has .replace = true →
    ∃ v, r.advanced = some v ∧ v ≠ []
  types : (∀ t, r.permittedTypes.contains t = true) ∨
    ∀ t, r.permittedTypes.contains t = true → r.restrictedTypes.contains t = false
  listed : r.domains.Listed ∧ r.apps.Listed ∧ r.methods.Listed

/-- **Well-formedness.** -/
theorem wellFormed_of_parse {policy : DuplicatePolicy} {id : RuleId} {text : Text}
    {r : NetworkRule} (h : parse policy id (.whole text) = .ok r) : r.WellFormed text := by
  obtain ⟨-, -, hpattern, hallow⟩ := frame_of_parse h
  rw [parse_eq] at h
  obtain ⟨modifiers, hmodifiers, h⟩ := Reading.bind_eq_ok_iff.mp h
  obtain ⟨hadmitted, hnodup⟩ := admitted_of_readModifiers hmodifiers
  split at h
  · exact nomatch h
  · rename_i hempty
    have hbuilt := (built_bare _ _ _ _).applyAll hadmitted h
    rw [List.nil_append] at hbuilt
    refine {
      written := ?_
      confined := fun hnil => hbuilt.confined ?_
      exempting := hbuilt.exempting
      redirectRule := hbuilt.redirectRule
      used := hbuilt.used
      value := hbuilt.value
      types := hbuilt.disjoint_types hnodup
      listed := hbuilt.listed }
    · rw [hpattern, hallow]
      exact Parts.exists_ofFragment (.whole text)
    · rw [hpattern] at hnil
      have hdomain : modifiers.contains .domain = true := by simpa [hnil] using hempty
      exact List.mem_map.mp (ModifierMap.contains_iff.mp hdomain)

/-- A rule with a domain, a redirection and a type, and without a pattern. -/
theorem wellFormed_redirect_without_pattern :
    ∃ r, parse .lastWins ⟨1, 0⟩ (.whole "$domain=a.com|~b.com,redirect=noopjs,script".toList) = .ok r ∧
      r.WellFormed "$domain=a.com|~b.com,redirect=noopjs,script".toList := by
  obtain ⟨r, hr⟩ : ∃ r, parse .lastWins ⟨1, 0⟩
    (.whole "$domain=a.com|~b.com,redirect=noopjs,script".toList) = .ok r := ⟨_, rfl⟩
  exact ⟨r, hr, wellFormed_of_parse hr⟩

end ContentFilter.NetworkRule
