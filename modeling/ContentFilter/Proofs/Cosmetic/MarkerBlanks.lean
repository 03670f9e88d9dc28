import ContentFilter.Proofs.Cosmetic.Marker
import ContentFilter.Proofs.Cosmetic.Shift
import ContentFilter.Proofs.Modifier.Duplicates
import ContentFilter.Proofs.ValueList.Entries

/-!
# Blanks around a marker

Blanks behind a marker are trimmed from the content. Blanks in front of it become the end of the
list of domains, and a list with blanks at its end is read like the list without them, also if there
is nothing else in it. So the rule stays what it was, with one exception: behind a block with a
domain modifier no list of domains may stand, and what stands there is not trimmed before it is
taken for one (`parse_blanks`).

The marker itself is found again, since no marker has a blank in it and so none can begin in front
of the blanks and end behind them.
-/

set_option autoImplicit false

namespace ContentFilter

/-! ## The marker -/

/-- What holds no blanks and begins a text ends in front of the first blanks. -/
theorem Text.prefix_of_blanks {x t w rest : Text} (hx : ∀ c ∈ x, isBlank c = false) (hne : w ≠ [])
    (hw : ∀ c ∈ w, isBlank c = true) (h : x <+: t ++ (w ++ rest)) : x <+: t := by
  rcases List.prefix_or_prefix_of_prefix h (List.prefix_append t (w ++ rest)) with h' | ⟨y, rfl⟩
  · exact h'
  · obtain ⟨c, w, rfl⟩ := List.exists_cons_of_ne_nil hne
    cases y with
    | nil => rw [List.append_nil]
    | cons d y =>
      have hd := (List.cons_prefix_cons.mp ((List.prefix_append_right_inj t).mp h)).1
      have hblank := hx d (List.mem_append_right t List.mem_cons_self)
      rw [hd, hw c List.mem_cons_self] at hblank
      exact nomatch hblank

namespace Marker

variable {t w : Text} {s : Split}

/-- Markers hold no blanks. -/
theorem isBlank_of_mem_text (m : Marker) : ∀ c ∈ m.text, Text.isBlank c = false := by
  have hall : ∀ m ∈ all, m.text.all (!Text.isBlank ·) = true := by decide
  simpa using hall m (mem_all m)

theorem not_prefix_nil (m : Marker) : ¬ m.text <+: [] := by
  intro h
  obtain ⟨c, rest, hm⟩ := exists_text_eq_cons m
  rw [hm] at h
  exact nomatch List.prefix_nil.mp h

/-- Blanks in front of the marker stay in front of it. -/
theorem split?_insert_before (h : split? t = some s) (hw : ∀ c ∈ w, Text.isBlank c = true) :
    split? (s.before ++ w ++ s.marker.text ++ s.rest) = some ⟨s.before ++ w, s.marker, s.rest⟩ := by
  refine split?_append fun u v huv hne m hm => ?_
  rw [List.append_assoc] at hm
  rcases List.append_eq_append_iff.mp huv with ⟨a, -, rfl⟩ | ⟨v', hbefore, rfl⟩
  · have hv : ∀ c ∈ v, Text.isBlank c = true := fun c hc => hw c (List.mem_append_right a hc)
    exact not_prefix_nil m (Text.prefix_of_blanks (t := []) m.isBlank_of_mem_text hne hv hm)
  · by_cases hnil : w = []
    · subst hnil
      rw [List.append_nil] at hm hne
      rw [← List.append_assoc] at hm
      exact not_prefix_of_split? h hbefore hne m hm
    · rw [List.append_assoc] at hm
      have hfront := Text.prefix_of_blanks m.isBlank_of_mem_text hnil hw hm
      by_cases hv' : v' = []
      · exact not_prefix_nil m (hv' ▸ hfront)
      · have hall := hfront.trans (List.prefix_append v' (s.marker.text ++ s.rest))
        rw [← List.append_assoc] at hall
        exact not_prefix_of_split? h hbefore hv' m hall

/-- Blanks behind the marker stay behind it. -/
theorem split?_insert_behind (h : split? t = some s) (hw : ∀ c ∈ w, Text.isBlank c = true) :
    split? (s.before ++ s.marker.text ++ (w ++ s.rest)) =
      some ⟨s.before, s.marker, w ++ s.rest⟩ := by
  refine split?_append fun u v huv hne m hm => ?_
  by_cases hnil : w = []
  · subst hnil
    exact not_prefix_of_split? h huv hne m hm
  · have hfront := Text.prefix_of_blanks m.isBlank_of_mem_text hnil hw hm
    exact not_prefix_of_split? h huv hne m (hfront.trans (List.prefix_append _ s.rest))

end Marker

/-! ## Lists of domains -/

variable {w : Text}

/-- Blanks at the end of a list make no difference to its entries. -/
theorem ValueList.forall₂_writes_append {c : Char} (hc : c ≠ '\\') (hcw : Text.isBlank c = false)
    (hw : ∀ c ∈ w, Text.isBlank c = true) {t : Text} {entries : List (Text × Bool)} :
    List.Forall₂ Writes (Text.cut (Text.unescaped c) (t ++ w)) entries ↔
      List.Forall₂ Writes (Text.cut (Text.unescaped c) t) entries := by
  have hmem : c ∉ w := by
    intro hmem
    rw [hw c hmem] at hcw
    exact nomatch hcw
  induction t using Text.cut_unescaped_induction hc generalizing entries with
  | guarded t ht =>
    rw [Text.cut_unescaped_of_guarded ht,
      Text.cut_unescaped_of_guarded (ht.append_of_not_mem hmem)]
    simp only [List.forall₂_cons_left_iff, Writes, Text.trim_append_of_pos t hw]
  | append p t hp hlast ih =>
    rw [List.append_assoc, List.cons_append, Text.cut_unescaped_append hc hp hlast,
      Text.cut_unescaped_append hc hp hlast]
    simp only [List.forall₂_cons_left_iff, ih]

/-- Blanks behind a list change nothing in what it is read into. -/
theorem ValueList.parse_entries_append {separator : Separator} {offset : Nat} {t : Text}
    {entries : List (Text × Bool)} (hw : ∀ c ∈ w, Text.isBlank c = true) :
    (parse separator ⟨offset, t ++ w⟩).map (·.map (·.entry)) = .ok entries ↔
      (parse separator ⟨offset, t⟩).map (·.map (·.entry)) = .ok entries := by
  have hchar : Text.isBlank separator.char = false := by cases separator <;> rfl
  rw [parse_entries_iff, parse_entries_iff,
    forall₂_writes_append separator.char_ne_backslash hchar hw]
  simp only [Text.dropTailWhile_append_of_pos t hw]

namespace PageScope

theorem readDomains_append {offset : Nat} {t : Text} {separator : Separator} {domains : Scope}
    (hw : ∀ c ∈ w, Text.isBlank c = true)
    (h : readDomains ⟨offset, t⟩ separator = .ok domains) :
    readDomains ⟨offset, t ++ w⟩ separator = .ok domains := by
  have htrim : Text.trim Text.isWhite (t ++ w) = Text.trim Text.isWhite t :=
    Text.trim_append_of_pos t fun c hc => Text.isWhite_of_isBlank (hw c hc)
  rw [readDomains] at h ⊢
  simp only [htrim] at h ⊢
  split at h
  · rename_i hevery
    rw [if_pos hevery]
    exact h
  · rename_i hevery
    rw [if_neg hevery]
    obtain ⟨items, hitems, h⟩ := Reading.bind_eq_ok_iff.mp h
    -- The entries are the same, and the scope comes from them.
    have hentries : (ValueList.parse separator ⟨offset, t⟩).map (·.map (·.entry)) =
        .ok (items.map (·.entry)) := Reading.map_eq_ok_iff.mpr ⟨items, hitems, rfl⟩
    obtain ⟨items', hitems', hsame⟩ :=
      Reading.map_eq_ok_iff.mp ((ValueList.parse_entries_append hw).mpr hentries)
    refine Reading.bind_eq_ok_iff.mpr ⟨items', hitems', ?_⟩
    rw [ValueList.scope_eq_scopeOf] at h ⊢
    rw [hsame]
    exact h

/-! ## The text in front of the marker -/

/-- Blanks at the end of what stands before a marker belong to its list of domains. -/
theorem Parts.ofFragment_append {offset : Nat} {t : Text} {parts : Parts}
    (hw : ∀ c ∈ w, Text.isBlank c = true) (h : ofFragment ⟨offset, t⟩ = .ok parts) :
    ofFragment ⟨offset, t ++ w⟩ =
      .ok ⟨parts.block, ⟨parts.domains.offset, parts.domains.text ++ w⟩⟩ := by
  rw [ofFragment] at h ⊢
  by_cases hopening : blockOpening <+: t
  · obtain ⟨inner, rfl⟩ := hopening
    rw [Fragment.strip?_append] at h
    rw [List.append_assoc, Fragment.strip?_append]
    simp only at h ⊢
    cases hsplit : Fragment.splitFirst? blockClosing
        ⟨offset + Text.byteLength blockOpening, inner⟩ with
    | none =>
      rw [hsplit] at h
      exact absurd h Reading.error_ne_ok
    | some split =>
      obtain ⟨block, domains⟩ := split
      rw [hsplit] at h
      rw [Fragment.splitFirst?_append_right hsplit]
      simp only at h ⊢
      split at h
      · exact absurd h Reading.error_ne_ok
      · rename_i hnonempty
        obtain rfl := Except.ok.inj h
        rw [if_neg hnonempty]
  · have hbehind : ¬ blockOpening <+: t ++ w := by
      intro hprefix
      by_cases hnil : w = []
      · rw [hnil, List.append_nil] at hprefix
        exact hopening hprefix
      · have hplain : blockOpening.all (!Text.isBlank ·) = true := by decide
        rw [← List.append_nil w] at hprefix
        exact hopening (Text.prefix_of_blanks (by simpa using hplain) hnil hw hprefix)
    rw [Fragment.strip?_eq_none hopening] at h
    rw [Fragment.strip?_eq_none hbehind]
    obtain rfl := Except.ok.inj h
    rfl

/-- The block in front of a marker has a domain modifier. -/
def NamesDomain (pattern : Fragment) : Prop :=
  ∃ parts block, Parts.ofFragment pattern = .ok parts ∧ parts.block = some block ∧
    .domain ∈ ModifierMap.kindsNamed (ModifierMap.tokens block)

/-- Whether a block names domains is what its modifiers say. -/
theorem namesDomain_iff {policy : DuplicatePolicy} {pattern : Fragment} {parts : Parts}
    {modifiers : ModifierMap} (hparts : Parts.ofFragment pattern = .ok parts)
    (hmodifiers : readModifiers policy parts.block = .ok modifiers) :
    NamesDomain pattern ↔ modifiers.contains .domain = true := by
  have hnames : NamesDomain pattern ↔ ∃ block, parts.block = some block ∧
      .domain ∈ ModifierMap.kindsNamed (ModifierMap.tokens block) := by
    constructor
    · rintro ⟨parts', block, hparts', hblock⟩
      obtain rfl := Except.ok.inj (hparts.symm.trans hparts')
      exact ⟨block, hblock⟩
    · rintro ⟨block, hblock⟩
      exact ⟨parts, block, hparts, hblock⟩
  rw [hnames]
  cases hblock : parts.block with
  | none =>
    rw [hblock] at hmodifiers
    obtain rfl := Except.ok.inj hmodifiers
    refine iff_of_false ?_ Bool.false_ne_true
    rintro ⟨block, hnone, -⟩
    exact nomatch hnone
  | some block =>
    rw [hblock, readModifiers_some] at hmodifiers
    rw [ModifierMap.contains_iff_mem_kindsNamed hmodifiers]
    constructor
    · rintro ⟨block', hsome, hmem⟩
      obtain rfl := Option.some.inj hsome
      exact hmem
    · exact fun hmem => ⟨block, rfl, hmem⟩

/-- Without a domain modifier the domains are those that stand behind the block, if any do. -/
theorem domainList?_bind_readDomains? {modifiers : ModifierMap} (domains : Fragment)
    (h : modifiers.contains .domain = false) :
    (domainList? modifiers domains >>= readDomains?) = readDomains domains .comma := by
  obtain ⟨offset, text⟩ := domains
  rw [domainList?, Option.isNone_iff_eq_none.mp (Option.isSome_eq_false_iff.mp h)]
  cases text with
  | nil => rfl
  | cons c text => rfl

/-- **Blanks at the end.** -/
theorem parse_append {policy : DuplicatePolicy} {offset : Nat} {t : Text} {scope : PageScope}
    (hw : ∀ c ∈ w, Text.isBlank c = true) (h : parse policy ⟨offset, t⟩ = .ok scope)
    (hfree : w = [] ∨ ¬ NamesDomain ⟨offset, t⟩) : parse policy ⟨offset, t ++ w⟩ = .ok scope := by
  rcases hfree with rfl | hfree
  · rw [List.append_nil]
    exact h
  · obtain ⟨parts, modifiers, domains, hparts, hmodifiers, hdomains, rfl⟩ := parse_eq_ok_iff.mp h
    have hcontains : modifiers.contains .domain = false := by
      rw [namesDomain_iff hparts hmodifiers, Bool.not_eq_true] at hfree
      exact hfree
    rw [domainList?_bind_readDomains? _ hcontains] at hdomains
    refine parse_eq_ok_iff.mpr
      ⟨_, modifiers, domains, Parts.ofFragment_append hw hparts, hmodifiers, ?_, rfl⟩
    rw [domainList?_bind_readDomains? _ hcontains]
    exact readDomains_append hw hdomains

/-- Behind a domain modifier blanks are taken for a list of domains. -/
theorem parse_append_of_namesDomain {policy : DuplicatePolicy} {offset : Nat} {t : Text}
    {scope : PageScope} (hw : ∀ c ∈ w, Text.isBlank c = true) (hne : w ≠ [])
    (h : parse policy ⟨offset, t⟩ = .ok scope) (hdomain : NamesDomain ⟨offset, t⟩) :
    ∃ span, parse policy ⟨offset, t ++ w⟩ = refuse .domainModifierConflict span := by
  obtain ⟨parts, modifiers, domains, hparts, hmodifiers, -, -⟩ := parse_eq_ok_iff.mp h
  rw [namesDomain_iff hparts hmodifiers] at hdomain
  obtain ⟨m, hm⟩ := Option.isSome_iff_exists.mp hdomain
  have hlist : domainList? modifiers ⟨parts.domains.offset, parts.domains.text ++ w⟩ =
      refuse .domainModifierConflict m.span := by
    rw [domainList?, hm]
    simp [hne]
  refine ⟨m.span, ?_⟩
  rw [parse_eq, Parts.ofFragment_append hw hparts]
  show (readModifiers policy parts.block >>= _) = _
  rw [hmodifiers]
  show (domainList? modifiers _ >>= _) = _
  rw [hlist]
  rfl

end PageScope

/-! ## The rule -/

namespace CosmeticRule

open PageScope (NamesDomain)

variable {policy : DuplicatePolicy} {id : RuleId} {text : Text} {r : CosmeticRule}
  {s : Marker.Split}

/-- What is behind the marker at which a text is split. -/
def contentOf (s : Marker.Split) : Fragment :=
  (⟨Text.byteLength (s.before ++ s.marker.text), s.rest⟩ : Fragment).trim Text.isWhite

/-- Blanks in front of a marker move the content. -/
theorem contentOf_insert_before (s : Marker.Split) (w : Text) :
    contentOf ⟨s.before ++ w, s.marker, s.rest⟩ = (contentOf s).shift (Text.byteLength w) := by
  rw [contentOf, contentOf, ← Fragment.trim_shift, Fragment.shift]
  simp only [Text.byteLength_append, Nat.add_right_comm]

/-- Blanks behind a marker move the content, and are trimmed from it. -/
theorem contentOf_insert_behind (s : Marker.Split) (hw : ∀ c ∈ w, Text.isBlank c = true) :
    contentOf ⟨s.before, s.marker, w ++ s.rest⟩ = (contentOf s).shift (Text.byteLength w) := by
  rw [contentOf, contentOf, ← Fragment.trim_shift, Fragment.shift,
    Fragment.trim_append_of_pos _ _ fun c hc => Text.isWhite_of_isBlank (hw c hc)]

/-- A rule with a marker falls into its parts exactly if there is a content. -/
theorem Parts.ofFragment_eq_ok_iff (hsplit : Marker.split? text = some s) {parts : Parts} :
    ofFragment (.whole text) = .ok parts ↔
      (contentOf s).text ≠ [] ∧ parts = ⟨.whole s.before, s.marker, contentOf s⟩ := by
  obtain ⟨before, marker, rest⟩ := s
  have hcontent : ((Fragment.whole text).after (before ++ marker.text) rest).trim Text.isWhite =
      contentOf ⟨before, marker, rest⟩ := by
    rw [contentOf, Fragment.after, Fragment.whole, Nat.zero_add]
  rw [ofFragment, show (Fragment.whole text).text = text from rfl, hsplit]
  simp only [hcontent, List.isEmpty_iff]
  by_cases hempty : (contentOf ⟨before, marker, rest⟩).text = []
  · rw [if_pos hempty]
    exact iff_of_false Reading.error_ne_ok fun h => h.1 hempty
  · rw [if_neg hempty]
    exact ⟨fun h => ⟨hempty, (Except.ok.inj h).symm⟩, fun h => congrArg Except.ok h.2.symm⟩

/-- A rule is read if there is a content behind the marker and a page scope in front of it. -/
theorem parse_eq_ok_iff_of_split (hsplit : Marker.split? text = some s) :
    parse policy id (.whole text) = .ok r ↔ ∃ scope, (contentOf s).text ≠ [] ∧
      PageScope.parse policy (.whole s.before) = .ok scope ∧
      checkCall s.marker (contentOf s) = .ok () ∧
      r = {
        id
        text
        marker := s.marker
        content := (contentOf s).text
        domains := scope.domains
        path := scope.path
        url := scope.url } := by
  simp only [parse, Reading.bind_eq_ok_iff, Parts.ofFragment_eq_ok_iff hsplit]
  constructor
  · rintro ⟨_, ⟨hne, rfl⟩, scope, hscope, _, hcheck, hr⟩
    exact ⟨scope, hne, hscope, hcheck, (Except.ok.inj hr).symm⟩
  · rintro ⟨scope, hne, hscope, hcheck, rfl⟩
    exact ⟨_, ⟨hne, rfl⟩, scope, hscope, (), hcheck, rfl⟩

/-- Where the content stands does not matter. -/
theorem parse_of_split_shift (h : parse policy id (.whole text) = .ok r)
    (hsplit : Marker.split? text = some s) {text' : Text} {s' : Marker.Split}
    (hsplit' : Marker.split? text' = some s') {base : Nat} (hmarker : s'.marker = s.marker)
    (hcontent : contentOf s' = (contentOf s).shift base)
    (hscope : ∀ scope, PageScope.parse policy (.whole s.before) = .ok scope →
      PageScope.parse policy (.whole s'.before) = .ok scope) :
    parse policy id (.whole text') = .ok { r with text := text' } := by
  obtain ⟨scope, hne, hread, hcheck, rfl⟩ := (parse_eq_ok_iff_of_split hsplit).mp h
  refine (parse_eq_ok_iff_of_split hsplit').mpr ⟨scope, ?_, hscope scope hread, ?_, ?_⟩
  · rw [hcontent]
    exact hne
  · rw [hcontent, hmarker, checkCall_shift, hcheck]
    rfl
  · rw [hcontent, hmarker]
    rfl

/-- A rule that is read has a marker. -/
theorem exists_split_of_parse (h : parse policy id (.whole text) = .ok r) :
    ∃ s, Marker.split? text = some s := by
  obtain ⟨parts, hparts, -⟩ := Reading.bind_eq_ok_iff.mp h
  cases hsplit : Marker.split? text with
  | some s => exact ⟨s, rfl⟩
  | none =>
    rw [Parts.ofFragment, show (Fragment.whole text).text = text from rfl, hsplit] at hparts
    exact absurd hparts Reading.error_ne_ok

/-- **Blanks around a marker.** Behind the marker they make no difference to a rule. In front of it
they make none either, unless they stand behind a block with a domain modifier. -/
theorem parse_blanks (h : parse policy id (.whole text) = .ok r)
    (hw : ∀ c ∈ w, Text.isBlank c = true) :
    ∃ s, Marker.split? text = some s ∧
      let behind := s.before ++ s.marker.text ++ (w ++ s.rest)
      let before := s.before ++ w ++ s.marker.text ++ s.rest
      parse policy id (.whole behind) = .ok { r with text := behind } ∧
      (parse policy id (.whole before) = .ok { r with text := before } ↔
        w = [] ∨ ¬ NamesDomain (.whole s.before)) ∧
      (w ≠ [] → NamesDomain (.whole s.before) → ∃ span,
        parse policy id (.whole before) = refuse .domainModifierConflict span) := by
  obtain ⟨s, hsplit⟩ := exists_split_of_parse h
  obtain ⟨scope, hne, hscope, -, -⟩ := (parse_eq_ok_iff_of_split hsplit).mp h
  have hsplitBehind := Marker.split?_insert_behind hsplit hw
  have hsplitBefore := Marker.split?_insert_before hsplit hw
  have hcontent := contentOf_insert_before s w
  have hrefused : w ≠ [] → NamesDomain (.whole s.before) → ∃ span,
      parse policy id (.whole (s.before ++ w ++ s.marker.text ++ s.rest)) =
        refuse .domainModifierConflict span := by
    intro hnonempty hdomain
    obtain ⟨span, hspan⟩ := PageScope.parse_append_of_namesDomain hw hnonempty hscope hdomain
    refine ⟨span, ?_⟩
    rw [parse, (Parts.ofFragment_eq_ok_iff hsplitBefore).mpr ⟨hcontent ▸ hne, rfl⟩]
    show (PageScope.parse policy (.whole (s.before ++ w)) >>= _) = _
    rw [show PageScope.parse policy (.whole (s.before ++ w)) = _ from hspan]
    rfl
  refine ⟨s, hsplit, ?_, ⟨fun haccepted => ?_, fun hfree => ?_⟩, hrefused⟩
  · exact parse_of_split_shift h hsplit hsplitBehind rfl (contentOf_insert_behind s hw)
      fun scope hscope => hscope
  · by_contra hdomain
    rw [not_or, not_not] at hdomain
    obtain ⟨span, hspan⟩ := hrefused hdomain.1 hdomain.2
    exact Reading.error_ne_ok (hspan.symm.trans haccepted)
  · exact parse_of_split_shift h hsplit hsplitBefore rfl hcontent fun scope hscope =>
      PageScope.parse_append hw hscope hfree

/-- Blanks on both sides of a marker behind a path. -/
theorem parse_blanks_path :
    ∃ r, parse .lastWins ⟨1, 0⟩ (.whole "[$path=/x]a.com##.ad".toList) = .ok r ∧
      parse .lastWins ⟨1, 0⟩ (.whole "[$path=/x]a.com \t##.ad".toList) =
        .ok { r with text := "[$path=/x]a.com \t##.ad".toList } := by
  obtain ⟨r, hr⟩ : ∃ r, parse .lastWins ⟨1, 0⟩ (.whole "[$path=/x]a.com##.ad".toList) = .ok r :=
    ⟨_, rfl⟩
  have hw : ∀ c ∈ " \t".toList, Text.isBlank c = true := List.all_eq_true.mp (by decide)
  obtain ⟨s, hsplit, -, hbefore, -⟩ := parse_blanks hr hw
  obtain rfl : ⟨"[$path=/x]a.com".toList, ⟨.elementHiding, false⟩, ".ad".toList⟩ = s :=
    Option.some.inj hsplit
  refine ⟨r, hr, hbefore.mpr (.inr ?_)⟩
  rintro ⟨parts, block, hparts, hblock, hdomain⟩
  obtain rfl := Except.ok.inj hparts
  obtain rfl := Option.some.inj hblock
  exact absurd hdomain (by decide)

/-- Behind a block with a domain modifier, one space has the rule refused. -/
theorem exists_blank_refused :
    ¬ ∀ (policy : DuplicatePolicy) (id : RuleId) (text w : Text) (r : CosmeticRule)
      (s : Marker.Split), parse policy id (.whole text) = .ok r → Marker.split? text = some s →
        (∀ c ∈ w, Text.isBlank c = true) →
          ∃ r', parse policy id (.whole (s.before ++ w ++ s.marker.text ++ s.rest)) = .ok r' := by
  intro hall
  obtain ⟨r, hr⟩ : ∃ r, parse .lastWins ⟨0, 0⟩ (.whole "[$domain=a.com]##.x".toList) = .ok r :=
    ⟨_, rfl⟩
  obtain ⟨r', hr'⟩ := hall .lastWins ⟨0, 0⟩ _ " ".toList r
    ⟨"[$domain=a.com]".toList, ⟨.elementHiding, false⟩, ".x".toList⟩ hr rfl
    (List.all_eq_true.mp (by decide))
  exact nomatch hr'

end CosmeticRule

end ContentFilter
