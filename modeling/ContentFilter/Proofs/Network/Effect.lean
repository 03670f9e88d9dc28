import ContentFilter.Network.Reader
import ContentFilter.Proofs.Modifier.Admission
import ContentFilter.Proofs.ValueList.RoundTrip

/-!
# What one modifier may do to a network rule

The effect of a modifier depends on its kind, and what a rule can rely on is the same for all kinds.
An effect is `Sound` if it exempts nothing in a rule that blocks, supplies a value where it uses
one, names only the type that its modifier stands for, and brings in lists of proper values. Every
modifier that the registry admitted has a sound effect (`Admitted.sound_effect`). This is the place
where the kinds are gone through; nothing else about a rule that was read needs to look at them.
-/

set_option autoImplicit false

namespace ContentFilter

/-! ## Lists -/

/-- A text that a list between pipes can hold. -/
def IsListed (v : Text) : Prop := ValueList.IsValue v ∧ Text.Guarded '|' v

namespace Scope

/-- Whether the scope restricts anything. -/
def Restricts (s : Scope) : Prop := s.permitted ≠ [] ∨ s.restricted ≠ []

/-- Every text in the scope can be held by a list. -/
def Listed (s : Scope) : Prop := ∀ v ∈ s.permitted ++ s.restricted, IsListed v

end Scope

namespace ValueList

/-- A scope has the values of the items, the exceptions among them. -/
theorem mem_scope {items : List ListItem} {v : Text} :
    v ∈ (scope items).permitted ++ (scope items).restricted ↔ ∃ i ∈ items, i.value = v := by
  simp only [scope, List.mem_append, List.mem_map, List.mem_filter]
  constructor
  · rintro (⟨i, ⟨hi, -⟩, rfl⟩ | ⟨i, ⟨hi, -⟩, rfl⟩) <;> exact ⟨i, hi, rfl⟩
  · rintro ⟨i, hi, rfl⟩
    cases hexception : i.exception with
    | false => exact .inl ⟨i, ⟨hi, by simp [hexception]⟩, rfl⟩
    | true => exact .inr ⟨i, ⟨hi, hexception⟩, rfl⟩

/-- The values of a list that is read can be held by a list. -/
theorem listed_scope_of_parse {list : Fragment} {items : List ListItem}
    (h : parse .pipe list = .ok items) : (scope items).Listed := by
  intro v hv
  obtain ⟨i, hi, rfl⟩ := mem_scope.mp hv
  have hread : (parse .pipe list).map (·.map (·.entry)) = .ok (items.map (·.entry)) := by
    rw [h]
    rfl
  exact (writable_of_parse hread).value i.entry (List.mem_map_of_mem hi)

/-- A list that ends in a character other than a blank has an item. -/
theorem restricts_scope_of_parse {list : Fragment} {items : List ListItem} {c : Char}
    (hlast : list.text.getLast? = some c) (hblank : Text.isBlank c = false)
    (h : parse .pipe list = .ok items) : (scope items).Restricts := by
  have hread : (parse .pipe list).map (·.map (·.entry)) = .ok (items.map (·.entry)) := by
    rw [h]
    rfl
  have hne : items ≠ [] := by
    rintro rfl
    rcases parse_entries_iff.mp hread with ⟨hnil, -⟩ | ⟨-, -, -, hpieces⟩
    · rw [Text.dropTailWhile_of_getLast?] at hnil
      · simp [hnil] at hlast
      · intro d hd
        rw [hlast] at hd
        rwa [← Option.some.inj hd]
    · rw [List.map_nil, List.forall₂_nil_right_iff] at hpieces
      exact Text.cut_unescaped_ne_nil (by decide) _ hpieces
  obtain ⟨i, hi⟩ := List.exists_mem_of_ne_nil _ hne
  have hmem := mem_scope.mpr ⟨i, hi, rfl⟩
  rcases List.mem_append.mp hmem with hv | hv
  · exact .inl (List.ne_nil_of_mem hv)
  · exact .inr (List.ne_nil_of_mem hv)

end ValueList

/-! ## One modifier -/

namespace Modifier

/-- The options of whole pages and of their parts, which only exceptions have. -/
def exemptions : List RuleOption :=
  [.document, .elemhide, .generichide, .specifichide, .jsinject, .content, .urlblock, .genericblock]

namespace Effect

/-- The effect redirects requests or edits responses. -/
def UsesValue (e : Effect) : Prop :=
  e.options.contains .redirect = true ∨ e.options.contains .replace = true

/-- What is known of the effect `e` that the modifier `m` has on a rule. -/
structure Sound (allowlist : Bool) (m : Modifier) (e : Effect) : Prop where
  exempting : allowlist = false → ∀ o ∈ exemptions, e.options.contains o = false
  redirectRule : e.options.contains .redirectRule = true → e.options.contains .redirect = true
  used : ∀ v, e.advanced = some (some v) → e.UsesValue
  supplied : e.UsesValue → ∃ v, e.advanced = some v
  value : allowlist = false → ∀ v, e.advanced = some v → ∃ t, v = some t ∧ t ≠ []
  permitted : ∀ t, e.permittedTypes.contains t = true →
    e.permittedTypes = .full ∨ m.kind = .requestType t ∧ m.negated = false
  restricted : ∀ t, e.restrictedTypes.contains t = true →
    m.kind = .requestType t ∧ m.negated = true
  confined : m.kind = .domain → ∃ s, e.domains = some s ∧ s.Restricts
  listed : ∀ s, e.domains = some s ∨ e.apps = some s ∨ e.methods = some s →
    s.Listed ∧ s.Restricts

end Effect

/-- The scope that a value lists can be held by a list, and restricts something. -/
theorem HasValue.sound_readScope {m : Modifier} (h : m.HasValue) {s : Scope}
    (hs : m.readScope = .ok s) : s.Listed ∧ s.Restricts := by
  obtain ⟨list, c, hvalue, hlast, hwhite⟩ := h
  rw [readScope, hvalue] at hs
  obtain ⟨items, hitems, rfl⟩ := Reading.map_eq_ok_iff.mp hs
  have hblank : Text.isBlank c = false := by
    by_contra hc
    rw [Text.isWhite_of_isBlank (by simpa using hc)] at hwhite
    exact nomatch hwhite
  exact ⟨ValueList.listed_scope_of_parse hitems,
    ValueList.restricts_scope_of_parse hlast hblank hitems⟩

/-- A value that is there is not empty. -/
theorem HasValue.exists_text {m : Modifier} (h : m.HasValue) :
    ∃ t, m.value.map (·.text) = some t ∧ t ≠ [] := by
  obtain ⟨list, c, hvalue, hlast, -⟩ := h
  refine ⟨list.text, by rw [hvalue]; rfl, fun hnil => ?_⟩
  rw [hnil] at hlast
  exact nomatch hlast

/-- Options and types ask for no value, as long as the options do not use one. -/
theorem Effect.sound_flags {allowlist : Bool} {m : Modifier} {options : RuleOptions}
    {permittedTypes restrictedTypes : RequestTypes} (hkind : m.kind ≠ .domain)
    (hexempting : allowlist = false → ∀ o ∈ exemptions, options.contains o = false)
    (hplain : ∀ o ∈ [.redirect, .redirectRule, .replace], options.contains o = false)
    (hpermitted : ∀ t, permittedTypes.contains t = true →
      permittedTypes = .full ∨ m.kind = .requestType t ∧ m.negated = false)
    (hrestricted : ∀ t, restrictedTypes.contains t = true →
      m.kind = .requestType t ∧ m.negated = true) :
    Sound allowlist m { options, permittedTypes, restrictedTypes } where
  exempting := hexempting
  redirectRule h := by simp [hplain] at h
  used _ h := nomatch h
  supplied h := by simp [UsesValue, hplain] at h
  value _ _ h := nomatch h
  permitted := hpermitted
  restricted := hrestricted
  confined h := absurd h hkind
  listed _ h := by simp at h

/-- An option without further meaning is a sound effect. -/
theorem Effect.sound_option {allowlist : Bool} {m : Modifier} {o : RuleOption}
    (hkind : m.kind ≠ .domain) (hexempting : allowlist = false → o ∉ exemptions)
    (hplain : o ∉ [.redirect, .redirectRule, .replace]) : (option o).Sound allowlist m := by
  have hsingle : ∀ {os : List RuleOption}, o ∉ os → ∀ o' ∈ os,
      (FlagSet.single o).contains o' = false := by
    rintro os ho o' ho'
    exact FlagSet.contains_single_of_ne fun heq => ho (heq ▸ ho')
  exact sound_flags hkind (fun hblocking => hsingle (hexempting hblocking)) (hsingle hplain)
    (by simp) (by simp)

/-- Naming or excluding a request type is a sound effect. -/
theorem Effect.sound_typeEffect {allowlist : Bool} {m : Modifier} {type : RequestType}
    (hkind : m.kind = .requestType type) :
    (typeEffect allowlist m.negated type).Sound allowlist m := by
  have hdomain : m.kind ≠ .domain := by
    rw [hkind]
    exact nofun
  have hsingle : ∀ t, (FlagSet.single type).contains t = true → m.kind = .requestType t := by
    intro t ht
    rw [FlagSet.contains_single, decide_eq_true_eq] at ht
    rw [hkind, ht]
  rw [typeEffect]
  cases hnegated : m.negated with
  | true =>
    rw [if_pos rfl]
    exact sound_flags hdomain (by simp) (by simp) (by simp) fun t ht => ⟨hsingle t ht, hnegated⟩
  | false =>
    rw [if_neg Bool.false_ne_true]
    have hpermitted : ∀ t, (FlagSet.single type).contains t = true →
        FlagSet.single type = .full ∨ m.kind = .requestType t ∧ m.negated = false :=
      fun t ht => .inr ⟨hsingle t ht, hnegated⟩
    split
    · rename_i hpage
      rw [Bool.and_eq_true] at hpage
      -- Only here an option is set that exempts pages, and only if the rule makes an exception.
      refine sound_flags hdomain (fun hblocking => ?_) (by decide) hpermitted (by simp)
      rw [hblocking] at hpage
      exact absurd hpage.1 Bool.false_ne_true
    · exact sound_flags hdomain (by simp) (by simp) hpermitted (by simp)

/-- Supplying a value asks for an option that uses it. -/
theorem Effect.sound_supplying {allowlist : Bool} {m : Modifier} {options : RuleOptions}
    {v : Option Text} (hkind : m.kind ≠ .domain)
    (hexempting : ∀ o ∈ exemptions, options.contains o = false)
    (hredirectRule : options.contains .redirectRule = true → options.contains .redirect = true)
    (hused : options.contains .redirect = true ∨ options.contains .replace = true)
    (hvalue : allowlist = false → ∃ t, v = some t ∧ t ≠ []) :
    Sound allowlist m { options, advanced := some v } where
  exempting _ := hexempting
  redirectRule := hredirectRule
  used _ _ := hused
  supplied _ := ⟨v, rfl⟩
  value hblocking v' hv' := by
    obtain rfl := Option.some.inj hv'
    exact hvalue hblocking
  permitted _ h := by simp at h
  restricted _ h := by simp at h
  confined h := absurd h hkind
  listed _ h := by simp at h

/-- Supplying lists is a sound effect. -/
theorem Effect.sound_scopes {allowlist : Bool} {m : Modifier} {domains apps methods : Option Scope}
    (hconfined : m.kind = .domain → ∃ s, domains = some s)
    (hlisted : ∀ s, domains = some s ∨ apps = some s ∨ methods = some s → s.Listed ∧ s.Restricts) :
    Sound allowlist m { domains, apps, methods } where
  exempting _ _ _ := FlagSet.contains_empty _
  redirectRule h := by simp at h
  used _ h := nomatch h
  supplied h := by simp [UsesValue] at h
  value _ _ h := nomatch h
  permitted _ h := by simp at h
  restricted _ h := by simp at h
  confined h := by
    obtain ⟨s, hs⟩ := hconfined h
    exact ⟨s, hs, (hlisted s (.inl hs)).2⟩
  listed := hlisted

/-- The options of exceptions are set by modifiers that only exceptions carry. -/
theorem not_mem_exemptions_of_plainOption? {kind : ModifierKind} {o : RuleOption}
    (hplain : plainOption? kind = some o)
    (hkind : kind.spec.ruleKinds.meets (NetworkRule.ruleKinds false) = true) :
    o ∉ exemptions := by
  cases kind <;> cases hplain <;> first | decide | exact absurd hkind (by decide)

/-- An editing modifier of a blocking rule that is not refused has a value. -/
theorem exists_text_of_replace {allowlist : Bool} {v : Option Text}
    (h : ¬ ((v.filter (!·.isEmpty)).isNone && !allowlist) = true) (hblocking : allowlist = false) :
    ∃ t, v.filter (!·.isEmpty) = some t ∧ t ≠ [] := by
  cases hkept : v.filter (!·.isEmpty) with
  | none => simp [hkept, hblocking] at h
  | some t => exact ⟨t, rfl, by simpa using (Option.filter_eq_some_iff.mp hkept).2⟩

/-- **One modifier.** A modifier that was admitted has a sound effect. -/
theorem Admitted.sound_effect {allowlist : Bool} {m : Modifier} {e : Effect}
    (h : m.Admitted (NetworkRule.ruleKinds allowlist)) (he : m.effect allowlist = .ok e) :
    e.Sound allowlist m := by
  obtain ⟨kind, name, value, negated, span⟩ := m
  obtain ⟨hpermitted, hvalue⟩ := h
  cases kind with
  | requestType type =>
    obtain rfl := Except.ok.inj he
    exact Effect.sound_typeEffect rfl
  | all =>
    obtain rfl := Except.ok.inj he
    exact Effect.sound_flags nofun (fun _ => by decide) (by decide) (fun _ _ => .inl rfl) (by simp)
  | thirdParty | firstParty =>
    obtain rfl := Except.ok.inj he
    cases negated
    all_goals exact Effect.sound_option nofun (fun _ => by simp [exemptions]) (by simp)
  | domain | app | method =>
    obtain ⟨scope, hscope, rfl⟩ := Reading.map_eq_ok_iff.mp he
    have hlisted := (hvalue rfl).sound_readScope hscope
    exact Effect.sound_scopes (by simp) (by simpa using hlisted)
  | redirect | redirectRule =>
    obtain rfl := Except.ok.inj he
    exact Effect.sound_supplying nofun (by decide) (by decide) (by decide)
      fun _ => (hvalue rfl).exists_text
  | replace =>
    simp only [effect] at he
    split at he
    · exact nomatch he
    · rename_i hkept
      obtain rfl := Except.ok.inj he
      exact Effect.sound_supplying nofun (by decide) (by decide) (by decide)
        (exists_text_of_replace hkept)
  | path | url =>
    obtain rfl := Except.ok.inj he
    exact Effect.sound_flags nofun (by simp) (by simp) (by simp) (by simp)
  | _ =>
    obtain rfl := Except.ok.inj he
    exact Effect.sound_option nofun
      (fun hblocking => not_mem_exemptions_of_plainOption? rfl (hblocking ▸ hpermitted)) (by decide)

end Modifier

end ContentFilter
