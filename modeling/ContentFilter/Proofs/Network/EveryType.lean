import ContentFilter.Proofs.Modifier.Admission
import ContentFilter.Proofs.Modifier.Duplicates
import ContentFilter.Proofs.Network.Steps
import ContentFilter.Proofs.Request.DecisionTable

/-!
# Rules for every request type

The modifier `all` extends a rule to every request type and to popups. Both are put into sets, and
modifiers only ever add to these, so neither is lost again, whatever other modifiers stand before
or behind it (`foldl_add_of_mem`). In particular a rule that names or excludes single types besides
still has all of them.

What such a rule does is then settled. It is about popups, and rules about popups are decided on
before redirections and ordinary requests are looked at. So it closes new popups and stops pages
elsewhere, and it neither drops nor redirects anything.
-/

set_option autoImplicit false

namespace ContentFilter.NetworkRule

/-! ## What stays -/

/-- What one of the effects brings about stays, if no effect undoes it. -/
theorem foldl_add_of_mem {P : NetworkRule → Prop}
    (hstays : ∀ (r : NetworkRule) (e : Modifier.Effect), P r → P (r.add e))
    {e : Modifier.Effect} {es : List Modifier.Effect} (he : e ∈ es)
    (hset : ∀ r : NetworkRule, P (r.add e)) (r : NetworkRule) : P (es.foldl add r) := by
  obtain ⟨front, back, rfl⟩ := List.append_of_mem he
  rw [List.foldl_append, List.foldl_cons]
  have hback : ∀ r, P r → P (back.foldl add r) := by
    intro r hr
    induction back generalizing r with
    | nil => exact hr
    | cons e' back ih => exact ih (by simp) (r.add e') (hstays r e' hr)
  exact hback _ (hset _)

variable {e : Modifier.Effect} {es : List Modifier.Effect}

/-- An option that one of some effects sets is there in the end. -/
theorem has_foldl_add_of_mem {o : RuleOption} (he : e ∈ es) (ho : e.options.contains o = true)
    (r : NetworkRule) : (es.foldl add r).has o = true := by
  refine foldl_add_of_mem (P := fun r => r.has o = true) (fun r e' hr => ?_) he (fun r => ?_) r
  · rw [has_add, hr, Bool.true_or]
  · rw [has_add, ho, Bool.or_true]

/-- If one of some effects names every type, every type is named in the end. -/
theorem permittedTypes_foldl_add_of_full (he : e ∈ es) (hfull : e.permittedTypes = .full)
    (r : NetworkRule) : (es.foldl add r).permittedTypes = .full := by
  refine foldl_add_of_mem (P := fun r => r.permittedTypes = .full) (fun r e' hr => ?_) he
    (fun r => ?_) r
  all_goals
    refine FlagSet.ext_contains fun t => ?_
    rw [add, FlagSet.contains_union, FlagSet.contains_full]
  · rw [hr, FlagSet.contains_full, Bool.true_or]
  · rw [hfull, FlagSet.contains_full, Bool.or_true]

/-! ## Rules with the modifier -/

variable {policy : DuplicatePolicy} {id : RuleId} {rule block : Fragment} {r : NetworkRule}

/-- Every modifier that the tokens of a rule name has its effect on the rule. -/
theorem exists_effect_of_mem_kindsNamed (hblock : (Parts.ofFragment rule).block = some block)
    {kind : ModifierKind} (hkind : kind ∈ ModifierMap.kindsNamed (ModifierMap.tokens block))
    (h : parse policy id rule = .ok r) :
    ∃ (m : Modifier) (e : Modifier.Effect) (es : List Modifier.Effect), m.kind = kind ∧
      m.Admitted (ruleKinds r.allowlist) ∧ m.effect r.allowlist = .ok e ∧ e ∈ es ∧
      r = es.foldl add (bare id rule.text r.pattern r.allowlist) := by
  obtain ⟨-, -, hpattern, hallow⟩ := frame_of_parse h
  obtain ⟨modifiers, es, hmodifiers, -, hes, hr⟩ := exists_of_parse h
  rw [← hpattern, ← hallow] at hr
  rw [← hallow] at hes
  rw [readModifiers, hblock, ← hallow] at hmodifiers
  have hcontains := (ModifierMap.contains_iff_mem_kindsNamed hmodifiers).mpr hkind
  obtain ⟨m, hm, hkind⟩ := List.mem_map.mp (ModifierMap.contains_iff.mp hcontains)
  have hadmitted := (ModifierMap.admitted_of_parse hmodifiers).1 m hm
  obtain ⟨e, he, heffect⟩ :=
    Reading.exists_mem_of_forall₂ (Reading.mapM_eq_ok_iff.mp hes).flip hm
  exact ⟨m, e, es, hkind, hadmitted, heffect, he, hr⟩

/-- **Rules for every request type.** A rule that is accepted with the modifier `all` makes no
exception, extends to every request type and is about popups, whatever modifiers it has besides. So
it closes new popups, shows a notice in the place of other pages and does nothing else. -/
theorem decide_of_all (hblock : (Parts.ofFragment rule).block = some block)
    (hall : .all ∈ ModifierMap.kindsNamed (ModifierMap.tokens block))
    (h : parse policy id rule = .ok r) :
    r.allowlist = false ∧ r.permittedTypes = .full ∧ r.has .popup = true ∧
      ∀ (host : Host) (request : Request),
        host.decide (some r) request =
          (if host.isNewPopup request.tab then .applied r request .closePopupTab
          else if request.isForDocument then .applied r request .showBlockingPage
          else .none) ∧
        (host.decide (some r) request).action ≠ .cancel ∧
        ∀ url, (host.decide (some r) request).action ≠ .redirect url := by
  obtain ⟨⟨kind, name, value, negated, span⟩, e, es, rfl, hadmitted, heffect, he, hr⟩ :=
    exists_effect_of_mem_kindsNamed hblock hall h
  -- Exceptions do not carry the modifier.
  have hblocking : r.allowlist = false := by
    have hmeets : ModifierKind.all.spec.ruleKinds.meets (ruleKinds r.allowlist) = true :=
      hadmitted.permitted
    by_contra hallow
    rw [Bool.not_eq_false] at hallow
    rw [hallow] at hmeets
    exact absurd hmeets (by decide)
  obtain rfl := Except.ok.inj heffect
  have hfull : r.permittedTypes = .full := by
    rw [hr]
    exact permittedTypes_foldl_add_of_full he rfl _
  have hpopup : r.has .popup = true := by
    rw [hr]
    exact has_foldl_add_of_mem he (FlagSet.contains_single_self _) _
  refine ⟨hblocking, hfull, hpopup, fun host request => ?_⟩
  have hdecide : host.decide (some r) request =
      if host.isNewPopup request.tab then .applied r request .closePopupTab
      else if request.isForDocument then .applied r request .showBlockingPage
      else .none := by
    rw [Host.decide_of_popup hblocking hpopup, Host.decidePopup, hfull, beq_self_eq_true,
      Bool.and_true]
  refine ⟨hdecide, ?_, fun url => ?_⟩
  all_goals
    rw [hdecide]
    split
    · exact fun h => Action.noConfusion h
    · split <;> exact fun h => Action.noConfusion h

/-- The rule names and excludes types and redirects besides, and a script is let through. -/
theorem decide_of_all_redirect :
    ∃ r, parse .reject ⟨1, 0⟩ (.whole "||a.com^$~script,redirect=noopjs,all,image".toList) = .ok r ∧
      r.permittedTypes = .full ∧
      ∀ (host : Host) (request : Request), host.isNewPopup request.tab = false →
        request.isForDocument = false → host.decide (some r) request = .none := by
  obtain ⟨r, hr⟩ : ∃ r, parse .reject ⟨1, 0⟩
    (.whole "||a.com^$~script,redirect=noopjs,all,image".toList) = .ok r := ⟨_, rfl⟩
  have hblock : (Parts.ofFragment (.whole
    "||a.com^$~script,redirect=noopjs,all,image".toList)).block =
      some ⟨9, "~script,redirect=noopjs,all,image".toList⟩ := rfl
  obtain ⟨-, hfull, -, hdecide⟩ := decide_of_all hblock (by decide) hr
  refine ⟨r, hr, hfull, fun host request hold hpage => ?_⟩
  rw [(hdecide host request).1, hold, hpage]
  rfl

end ContentFilter.NetworkRule
