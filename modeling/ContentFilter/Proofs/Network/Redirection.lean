import ContentFilter.Proofs.Modifier.Map
import ContentFilter.Proofs.Network.Steps
import ContentFilter.Proofs.Request.DecisionTable

/-!
# What a redirection asks for

A rule that redirects has the browser asked where its value leads, and that value should be the one
written for the redirection. The rule keeps one value only, though, and three kinds of modifiers
supply it: the two that redirect and the one that edits responses. They are added in the order in
which their kinds are first named, and the last one stays.

So the value asked for is the written one unless an editing modifier is first named behind the
redirection. Then it is the value of that modifier, and `asksFor_redirection_iff` says that this is
the only exception. Repetition and the policy on duplicates make no difference, and a rule about
popups asks for nothing.
-/

set_option autoImplicit false

namespace ContentFilter

/-! ## Asking for a value -/

/-- The rule has the browser asked where `value` leads, and sends requests there. -/
def NetworkRule.AsksFor (r : NetworkRule) (value : Option Text) : Prop :=
  ∀ (host : Host) (request : Request) (url : Text),
    host.redirectUrl? value request.url = some url →
      (host.decide (some r) request).action = .redirect url

/-- A rule asks the browser for a redirection if it redirects, makes no exception and is not about
popups; what it asks for is the value that it keeps. -/
theorem NetworkRule.asksFor_iff {r : NetworkRule} {value : Option Text} :
    r.AsksFor value ↔
      r.allowlist = false ∧ r.has .popup = false ∧ r.has .redirect = true ∧ r.advanced = value := by
  constructor
  · intro h
    -- A browser that knows where `value` leads, and nothing else.
    let host : Host := ⟨fun v _ => if v = value then some [] else none, fun _ => false⟩
    have haction := h host default [] (if_pos rfl)
    obtain ⟨r', hr', hredirects⟩ := (Host.action_decide_eq_iff (by simp)).mp haction
    obtain rfl := Option.some.inj hr'
    have htarget : (if r.advanced = value then some [] else none) = some [] :=
      Host.RedirectsTo.target hredirects
    refine ⟨hredirects.blocking, Host.RedirectsTo.notPopup hredirects,
      Host.RedirectsTo.redirect hredirects, ?_⟩
    by_contra hne
    rw [if_neg hne] at htarget
    exact nomatch htarget
  · rintro ⟨hblocking, hpopup, hredirect, rfl⟩ host request url htarget
    have hredirects : host.RedirectsTo url r request := ⟨hblocking, hpopup, hredirect, htarget⟩
    exact (Host.action_decide_eq_iff (by simp)).mpr ⟨r, rfl, hredirects⟩

/-- What the browser knows of redirections has no bearing on a decision about popups. -/
theorem Host.decide_of_popup_congr {r : NetworkRule} (hpopup : r.has .popup = true) (host : Host)
    (known : Option Text → Text → Option Text) (request : Request) :
    Host.decide { host with redirectUrl? := known } (some r) request =
      host.decide (some r) request := by
  by_cases hallow : r.allowlist = true
  · rw [decide_of_allowlist hallow, decide_of_allowlist hallow]
  · have hblocking := Bool.eq_false_iff.mpr hallow
    rw [decide_of_popup hblocking hpopup, decide_of_popup hblocking hpopup]
    rfl

/-! ## The value that is kept -/

namespace Modifier

/-- The kinds that redirect. -/
def redirects (kind : ModifierKind) : Bool := kind == .redirect || kind == .redirectRule

/-- The kinds whose value a rule keeps. -/
def suppliesValue (kind : ModifierKind) : Bool := redirects kind || kind == .replace

/-- What a modifier contributes to the redirection of a rule that makes no exception. -/
theorem effect_redirection {m : Modifier} {e : Effect} (h : m.effect false = .ok e) :
    e.options.contains .redirect = redirects m.kind ∧
      e.advanced = if suppliesValue m.kind then some (m.value.map (·.text)) else none := by
  obtain ⟨kind, name, value, negated, span⟩ := m
  cases kind with
  | redirect | redirectRule =>
    obtain rfl := Except.ok.inj h
    exact ⟨by simp [redirects, FlagSet.ofList, FlagSet.insert, FlagSet.contains_single], rfl⟩
  | replace =>
    simp only [effect] at h
    split at h
    · exact nomatch h
    · rename_i hvalue
      obtain rfl := Except.ok.inj h
      refine ⟨by simp [redirects, FlagSet.contains_single], ?_⟩
      -- The value was not dropped for being empty, since then there would be an error.
      cases hkept : (value.map (·.text)).filter (!·.isEmpty) with
      | none => simp [hkept] at hvalue
      | some v => rw [(Option.filter_eq_some_iff.mp hkept).1]; rfl
  | domain | app | method =>
    obtain ⟨scope, -, rfl⟩ := Reading.map_eq_ok_iff.mp h
    exact ⟨by simp [redirects], rfl⟩
  | requestType type =>
    obtain rfl := Except.ok.inj h
    cases negated <;> exact ⟨by simp [redirects, typeEffect], rfl⟩
  | thirdParty | firstParty =>
    obtain rfl := Except.ok.inj h
    cases negated <;> exact ⟨by simp [redirects, Effect.option, FlagSet.contains_single], rfl⟩
  | _ =>
    obtain rfl := Except.ok.inj h
    exact ⟨by simp [redirects, plainOption?, Effect.option, FlagSet.contains_single], rfl⟩

end Modifier

namespace NetworkRule

/-- A rule without exception mark redirects if one of its modifiers does, and the last modifier that
supplies a value supplies the one that stays. -/
theorem applyAll_redirection {r r' : NetworkRule} {ms : List Modifier}
    (hblocking : r.allowlist = false) (h : r.applyAll ms = .ok r') :
    r'.allowlist = false ∧
    r'.has .redirect = (r.has .redirect || ms.any (Modifier.redirects ·.kind)) ∧
    r'.advanced = ((ms.filter (Modifier.suppliesValue ·.kind)).getLast?.map
      (·.value.map (·.text))).getD r.advanced := by
  -- On the modifiers to come, for whatever the rule has become by now.
  induction ms generalizing r with
  | nil =>
    obtain rfl := Except.ok.inj h
    exact ⟨hblocking, by simp, rfl⟩
  | cons m ms ih =>
    obtain ⟨r₁, hfirst, h⟩ := Reading.bind_eq_ok_iff.mp h
    rw [apply, hblocking] at hfirst
    obtain ⟨e, heffect, rfl⟩ := Reading.map_eq_ok_iff.mp hfirst
    obtain ⟨hredirect, hadvanced⟩ := Modifier.effect_redirection heffect
    obtain ⟨hkind, hhas, hkept⟩ := ih (r := r.add e) hblocking h
    refine ⟨hkind, ?_, ?_⟩
    · rw [hhas, has_add, hredirect, List.any_cons, Bool.or_assoc]
    · rw [hkept, show (r.add e).advanced = e.advanced.getD r.advanced from rfl, hadvanced,
        List.filter_cons]
      by_cases hsupplies : Modifier.suppliesValue m.kind = true
      · rw [if_pos hsupplies, if_pos hsupplies, List.getLast?_cons]
        cases (ms.filter (Modifier.suppliesValue ·.kind)).getLast? <;> rfl
      · rw [if_neg hsupplies, if_neg hsupplies]
        rfl

/-! ## Rules with one redirection -/

/-- The rule makes no exception, and these are the modifiers written in its block. -/
def Carries (rule : Fragment) (ms : List Modifier) : Prop :=
  ∃ pattern block, Parts.ofFragment rule = ⟨false, pattern, some block⟩ ∧
    (ModifierMap.tokens block).mapM (Modifier.read (ruleKinds false)) = .ok ms

/-- Among the modifiers one of the two kinds that redirect occurs and the other does not, and `m` is
the last one of that kind. -/
structure SoleRedirection (ms : List Modifier) (m : Modifier) : Prop where
  redirects : Modifier.redirects m.kind = true
  last : ModifierMap.last? ms m.kind = some m
  only : ∀ m' ∈ ms, Modifier.redirects m'.kind = true → m'.kind = m.kind

/-- Behind the place where the redirection is first named an editing modifier is first named, and
the last one has another value. -/
def Overridden (ms : List Modifier) (m : Modifier) : Prop :=
  ModifierMap.NamedBefore ms m.kind .replace ∧
    ∃ e, ModifierMap.last? ms .replace = some e ∧ e.value.map (·.text) ≠ m.value.map (·.text)

open ModifierMap

section Sole

variable {ms : List Modifier} {m : Modifier} (hsole : SoleRedirection ms m)

include hsole

/-- Beside the redirection only an editing modifier supplies a value. -/
theorem SoleRedirection.eq_or_eq {kind : ModifierKind} (hmem : kind ∈ kinds ms)
    (hsupplies : Modifier.suppliesValue kind = true) : kind = m.kind ∨ kind = .replace := by
  rw [Modifier.suppliesValue, Bool.or_eq_true, beq_iff_eq] at hsupplies
  refine hsupplies.imp_left fun hredirects => ?_
  obtain ⟨m', hm', rfl⟩ := mem_kinds.mp hmem
  exact hsole.only m' hm' hredirects

/-- The redirecting modifier is among those of the rule. -/
theorem SoleRedirection.mem_kinds : m.kind ∈ kinds ms := by
  obtain ⟨-, before, after, rfl, -⟩ := last?_eq_some_iff.mp hsole.last
  exact ModifierMap.mem_kinds.mpr ⟨m, by simp, rfl⟩

/-- The redirecting modifier does not edit. -/
theorem SoleRedirection.ne_replace : m.kind ≠ .replace := by
  intro h
  have := hsole.redirects
  rw [h] at this
  exact nomatch this

/-- The modifier that supplies the value is the last one of its kind, if behind its kind neither
that of the redirection nor that of an editing modifier is named. -/
theorem SoleRedirection.getLast?_filter_entries {e : Modifier} {front back : List ModifierKind}
    (hkinds : kinds ms = front ++ e.kind :: back) (hlast : last? ms e.kind = some e)
    (hsupplies : Modifier.suppliesValue e.kind = true) (hredirection : m.kind ∉ back)
    (hediting : .replace ∉ back) :
    ((ofModifiers ms).entries.filter (Modifier.suppliesValue ·.kind)).getLast? = some e := by
  have hback : ∀ kind ∈ back, Modifier.suppliesValue kind = false := by
    intro kind hkind
    by_contra hkept
    rw [Bool.not_eq_false] at hkept
    rcases hsole.eq_or_eq (by rw [hkinds]; simp [hkind]) hkept with rfl | rfl
    · exact hredirection hkind
    · exact hediting hkind
  have hrest : (back.filterMap (last? ms)).filter (Modifier.suppliesValue ·.kind) = [] := by
    rw [List.filter_eq_nil_iff]
    intro e' he'
    obtain ⟨kind, hkind, he'⟩ := List.mem_filterMap.mp he'
    rw [kind_of_last? he', hback kind hkind]
    exact Bool.false_ne_true
  rw [entries_ofModifiers, hkinds, List.filterMap_append, List.filterMap_cons, hlast,
    List.filter_append, List.filter_cons, if_pos hsupplies, hrest, List.getLast?_concat]

/-- An editing modifier that is named behind the redirection supplies the value. -/
theorem SoleRedirection.getLast?_of_namedBefore {e : Modifier}
    (hbefore : NamedBefore ms m.kind .replace) (he : last? ms .replace = some e) :
    ((ofModifiers ms).entries.filter (Modifier.suppliesValue ·.kind)).getLast? = some e := by
  have hkind := kind_of_last? he
  have hmem : .replace ∈ kinds ms := by
    obtain ⟨-, before, after, rfl, -⟩ := last?_eq_some_iff.mp he
    exact ModifierMap.mem_kinds.mpr ⟨e, by simp, hkind⟩
  obtain ⟨front, back, hkinds, hredirection, hediting⟩ := hbefore.kinds_eq hsole.ne_replace hmem
  have hsupplies : Modifier.suppliesValue e.kind = true := by
    rw [hkind]
    rfl
  exact hsole.getLast?_filter_entries (hkind ▸ hkinds) (hkind ▸ he) hsupplies hredirection hediting

/-- Where no editing modifier is named behind the redirection, this supplies the value. -/
theorem SoleRedirection.getLast?_of_not_namedBefore
    (h : ¬ (NamedBefore ms m.kind .replace ∧ .replace ∈ kinds ms)) :
    ((ofModifiers ms).entries.filter (Modifier.suppliesValue ·.kind)).getLast? = some m := by
  have hsupplies : Modifier.suppliesValue m.kind = true := by
    rw [Modifier.suppliesValue, hsole.redirects, Bool.true_or]
  by_cases hmem : .replace ∈ kinds ms
  · have hbefore := namedBefore_of_not hsole.mem_kinds fun hbefore => h ⟨hbefore, hmem⟩
    obtain ⟨front, back, hkinds, hediting, hredirection⟩ :=
      hbefore.kinds_eq (Ne.symm hsole.ne_replace) hsole.mem_kinds
    exact hsole.getLast?_filter_entries hkinds hsole.last hsupplies hredirection hediting
  · have hnodup := nodup_kinds ms
    obtain ⟨front, back, hkinds⟩ := List.append_of_mem hsole.mem_kinds
    rw [hkinds] at hmem
    rw [hkinds, List.nodup_append, List.nodup_cons] at hnodup
    have hediting : .replace ∉ back := fun hin => hmem (by simp [hin])
    exact hsole.getLast?_filter_entries hkinds hsole.last hsupplies hnodup.2.1.1 hediting

end Sole

/-- A rule that was read has the redirection and the value that its modifiers give it. -/
theorem parse_redirection {policy : DuplicatePolicy} {id : RuleId} {rule : Fragment}
    {r : NetworkRule} {ms : List Modifier} (hcarries : Carries rule ms)
    (h : parse policy id rule = .ok r) :
    r.allowlist = false ∧
    r.has .redirect = (ofModifiers ms).entries.any (Modifier.redirects ·.kind) ∧
    r.advanced = (((ofModifiers ms).entries.filter (Modifier.suppliesValue ·.kind)).getLast?.map
      (·.value.map (·.text))).getD none := by
  obtain ⟨pattern, block, hparts, hms⟩ := hcarries
  rw [parse_eq, hparts] at h
  obtain ⟨map, hmap, h⟩ := Reading.bind_eq_ok_iff.mp h
  split at h
  · cases h
  · rw [eq_ofModifiers_of_parse hmap hms] at h
    obtain ⟨hallow, hredirect, hadvanced⟩ := applyAll_redirection (r := bare id rule.text pattern
      false) rfl h
    have hbare : (bare id rule.text pattern false).has .redirect = false := FlagSet.contains_empty _
    refine ⟨hallow, ?_, hadvanced⟩
    rw [hredirect, hbare, Bool.false_or]

/-- The map of the modifiers has one that redirects. -/
theorem SoleRedirection.any_redirects {ms : List Modifier} {m : Modifier}
    (hsole : SoleRedirection ms m) :
    (ofModifiers ms).entries.any (Modifier.redirects ·.kind) = true := by
  rw [List.any_eq_true, entries_ofModifiers]
  exact ⟨m, List.mem_filterMap.mpr ⟨m.kind, hsole.mem_kinds, hsole.last⟩, hsole.redirects⟩

/-- **The redirection.** A rule about popups asks for nothing. Any other rule whose block redirects
in one way asks for one value, and this is the one written last for the redirection exactly if no
editing modifier with another value is first named behind it. -/
theorem asksFor_redirection_iff {policy : DuplicatePolicy} {id : RuleId} {rule : Fragment}
    {r : NetworkRule} {ms : List Modifier} {m : Modifier} (hcarries : Carries rule ms)
    (hsole : SoleRedirection ms m) (h : parse policy id rule = .ok r) :
    (r.has .popup = true → ∀ (host : Host) (known : Option Text → Text → Option Text)
      (request : Request), Host.decide { host with redirectUrl? := known } (some r) request =
        host.decide (some r) request) ∧
    (r.has .popup = false → (∃ value, r.AsksFor value) ∧
      (r.AsksFor (m.value.map (·.text)) ↔ ¬ Overridden ms m)) := by
  obtain ⟨hblocking, hredirect, hadvanced⟩ := parse_redirection hcarries h
  rw [hsole.any_redirects] at hredirect
  refine ⟨fun hpopup host known => Host.decide_of_popup_congr hpopup host known, fun hpopup => ?_⟩
  have hasks : ∀ value, r.AsksFor value ↔ r.advanced = value := fun value =>
    asksFor_iff.trans ⟨fun hall => hall.2.2.2, fun heq => ⟨hblocking, hpopup, hredirect, heq⟩⟩
  refine ⟨⟨r.advanced, (hasks _).mpr rfl⟩, (hasks _).trans ?_⟩
  by_cases hnamed : NamedBefore ms m.kind .replace ∧ .replace ∈ kinds ms
  · obtain ⟨e, he⟩ := exists_last?_of_mem_kinds hnamed.2
    rw [hadvanced, hsole.getLast?_of_namedBefore hnamed.1 he, Option.map_some, Option.getD_some]
    constructor
    · rintro heq ⟨-, e', he', hne⟩
      obtain rfl := Option.some.inj (he.symm.trans he')
      exact hne heq
    · intro hkept
      by_contra hne
      exact hkept ⟨hnamed.1, e, he, hne⟩
  · rw [hadvanced, hsole.getLast?_of_not_namedBefore hnamed, Option.map_some, Option.getD_some]
    refine iff_of_true rfl ?_
    rintro ⟨hbefore, e, he, -⟩
    obtain ⟨hkind, before, after, rfl, -⟩ := last?_eq_some_iff.mp he
    exact hnamed ⟨hbefore, mem_kinds.mpr ⟨e, by simp, hkind⟩⟩

/-- The editing modifier is named first, so the last value of the redirection is the one asked
for. -/
theorem asksFor_redirection_behind_replace :
    ∃ r ms m, Carries (.whole "||a.com^$replace=/x/y/,redirect=a,redirect=noopjs".toList) ms ∧
      SoleRedirection ms m ∧
      parse .lastWins ⟨1, 0⟩ (.whole "||a.com^$replace=/x/y/,redirect=a,redirect=noopjs".toList)
        = .ok r ∧
      r.AsksFor (some "noopjs".toList) := by
  let replace : Modifier :=
    ⟨.replace, "replace".toList, some ⟨17, "/x/y/".toList⟩, false, ⟨9, 22⟩⟩
  let first : Modifier := ⟨.redirect, "redirect".toList, some ⟨32, "a".toList⟩, false, ⟨23, 33⟩⟩
  let second : Modifier :=
    ⟨.redirect, "redirect".toList, some ⟨43, "noopjs".toList⟩, false, ⟨34, 49⟩⟩
  have hcarries : Carries (.whole "||a.com^$replace=/x/y/,redirect=a,redirect=noopjs".toList)
      [replace, first, second] := ⟨_, _, rfl, by decide⟩
  have hsole : SoleRedirection [replace, first, second] second :=
    ⟨by decide, by decide, by decide⟩
  obtain ⟨r, hr, hpopup⟩ : ∃ r, parse .lastWins ⟨1, 0⟩
      (.whole "||a.com^$replace=/x/y/,redirect=a,redirect=noopjs".toList) = .ok r ∧
        r.has .popup = false := ⟨_, rfl, by decide⟩
  have hasks := ((asksFor_redirection_iff hcarries hsole hr).2 hpopup).2
  refine ⟨r, _, second, hcarries, hsole, hr, hasks.mpr ?_⟩
  rintro ⟨⟨before, m, after, hsplit, hkind, hbefore⟩, -⟩
  cases before with
  | nil =>
    obtain rfl : replace = m := (List.cons.inj hsplit).1
    exact nomatch hkind
  | cons m' before =>
    obtain rfl : replace = m' := (List.cons.inj hsplit).1
    exact hbefore replace List.mem_cons_self rfl

/-- An editing modifier behind the redirection has its own value asked for. -/
theorem exists_not_asksFor_redirection :
    ¬ ∀ (policy : DuplicatePolicy) (id : RuleId) (rule : Fragment) (r : NetworkRule)
      (ms : List Modifier) (m : Modifier), Carries rule ms → SoleRedirection ms m →
        parse policy id rule = .ok r → r.has .popup = false →
          r.AsksFor (m.value.map (·.text)) := by
  intro hall
  let redirect : Modifier :=
    ⟨.redirect, "redirect".toList, some ⟨18, "noopjs".toList⟩, false, ⟨9, 24⟩⟩
  let replace : Modifier :=
    ⟨.replace, "replace".toList, some ⟨33, "/x/y/".toList⟩, false, ⟨25, 38⟩⟩
  have hcarries : Carries (.whole "||a.com^$redirect=noopjs,replace=/x/y/".toList)
      [redirect, replace] := ⟨_, _, rfl, by decide⟩
  have hsole : SoleRedirection [redirect, replace] redirect := ⟨by decide, by decide, by decide⟩
  obtain ⟨r, hr, hpopup, hvalue⟩ : ∃ r, parse .lastWins ⟨1, 0⟩
      (.whole "||a.com^$redirect=noopjs,replace=/x/y/".toList) = .ok r ∧
        r.has .popup = false ∧ r.advanced = some "/x/y/".toList := ⟨_, rfl, by decide, by decide⟩
  have hasks := hall .lastWins ⟨1, 0⟩ _ r _ redirect hcarries hsole hr hpopup
  have hkept := (asksFor_iff.mp hasks).2.2.2
  rw [hvalue] at hkept
  exact absurd hkept (by decide)

end NetworkRule

end ContentFilter
