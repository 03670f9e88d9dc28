import ContentFilter.Cosmetic.Reader
import ContentFilter.Proofs.Cosmetic.PageScope
import ContentFilter.Proofs.Rule.Domain
import ContentFilter.Proofs.ValueList.RoundTrip

/-!
# What a list of domains means

A rule holds on a domain if no exception of its list covers the domain, and if the list has nothing
but exceptions, or has the name of every domain, or has a name that covers the domain. This is what
the entries of the list say (`HoldsOn`), and it is not quite what becomes of them.

The name of every domain is dropped from the permitted domains, as if it restricted nothing because
nothing is left. Where another name is left, that name now restricts the rule (`Narrowed`). And a
list is taken for the name of every domain when it is so but for white space, where the reader of
lists would drop blanks only; with other white space around it, the name is none that covers
anything (`Widened`). `appliesTo_iff_holdsOn_iff` says that these are the only two lists whose
meaning is not kept, and that in both it is lost on some domain.
-/

set_option autoImplicit false

namespace ContentFilter

/-! ## Domains that no name covers -/

namespace Domain

/-- No finite number of names covers all domains: a long one without a dot is left. -/
theorem exists_not_covers (names : List Text) : ∃ domain, ∀ n ∈ names, ¬ Covers n domain := by
  refine ⟨List.replicate (names.flatten.length + 1) 'a', fun n hn hcovers => ?_⟩
  have hfold : Text.foldCase (List.replicate (names.flatten.length + 1) 'a') =
      List.replicate (names.flatten.length + 1) 'a' := by
    rw [Text.foldCase, List.map_replicate]
    rfl
  rw [Covers, hfold] at hcovers
  rcases hcovers with heq | hsuffix
  · have hlength := congrArg List.length heq
    rw [List.length_replicate, Text.length_foldCase] at hlength
    have hle := (List.sublist_flatten_of_mem hn).length_le
    omega
  · have hdot := hsuffix.subset List.mem_cons_self
    exact absurd (List.eq_of_mem_replicate hdot) (by decide)

end Domain

open Domain (Covers)
open PageScope (everyDomain)

namespace CosmeticRule

variable {entries : List (Text × Bool)} {r : CosmeticRule} {domain : Text}

/-! ## Two meanings -/

/-- The entries of a list say that a rule holds on a domain. -/
def HoldsOn (entries : List (Text × Bool)) (domain : Text) : Prop :=
  (∀ e ∈ entries, e.2 = true → ¬ Covers e.1 domain) ∧
    ((∀ e ∈ entries, e.2 = true) ∨
      ∃ e ∈ entries, e.2 = false ∧ (e.1 = everyDomain ∨ Covers e.1 domain))

/-- Beside the name of every domain another one is permitted. -/
def Narrowed (entries : List (Text × Bool)) : Prop :=
  (everyDomain, false) ∈ entries ∧ ∃ e ∈ entries, e.2 = false ∧ e.1 ≠ everyDomain

/-- The scope that is kept of entries. -/
def keptScope (entries : List (Text × Bool)) : Scope :=
  { ValueList.scopeOf entries with
    permitted := (ValueList.scopeOf entries).permitted.filter (· != everyDomain) }

/-- A name is kept as permitted if an entry permits it and it does not stand for every domain. -/
theorem mem_keptScope_permitted {name : Text} :
    name ∈ (keptScope entries).permitted ↔ (name, false) ∈ entries ∧ name ≠ everyDomain := by
  simp [keptScope, ValueList.scopeOf]

/-- A name is kept as restricted if an entry excludes it, whatever it stands for. -/
theorem mem_keptScope_restricted {name : Text} :
    name ∈ (keptScope entries).restricted ↔ (name, true) ∈ entries := by
  simp [keptScope, ValueList.scopeOf]

/-- What the scope that is kept means. -/
theorem appliesTo_iff_of_keptScope (hvalue : ∀ e ∈ entries, e.1 ≠ [])
    (hdomains : r.domains = keptScope entries) :
    r.appliesTo domain = true ↔
      (∀ e ∈ entries, e.2 = true → ¬ Covers e.1 domain) ∧
        ((∀ e ∈ entries, e.2 = false → e.1 = everyDomain) ∨
          ∃ e ∈ entries, e.2 = false ∧ e.1 ≠ everyDomain ∧ Covers e.1 domain) := by
  have hpermitted : ∀ n ∈ (keptScope entries).permitted, n ≠ [] := fun n hn =>
    hvalue (n, false) (mem_keptScope_permitted.mp hn).1
  have hrestricted : ∀ n ∈ (keptScope entries).restricted, n ≠ [] := fun n hn =>
    hvalue (n, true) (mem_keptScope_restricted.mp hn)
  rw [appliesTo, isGeneric, permits, hdomains, Bool.and_eq_true, Bool.or_eq_true,
    Bool.not_eq_true', ← Bool.not_eq_true, Domain.coveredByAny_iff hrestricted,
    Domain.coveredByAny_iff hpermitted, List.isEmpty_iff, List.eq_nil_iff_forall_not_mem]
  simp only [mem_keptScope_permitted, mem_keptScope_restricted]
  refine and_congr ?_ (or_congr ?_ ?_)
  · constructor
    · rintro hnone ⟨name, _⟩ he rfl hcovers
      exact hnone ⟨name, he, hcovers⟩
    · rintro hall ⟨name, hname, hcovers⟩
      exact hall (name, true) hname rfl hcovers
  · constructor
    · rintro hnone ⟨name, _⟩ he rfl
      by_contra hne
      exact hnone name ⟨he, hne⟩
    · rintro hall name ⟨hname, hne⟩
      exact hne (hall (name, false) hname rfl)
  · constructor
    · rintro ⟨name, ⟨hname, hne⟩, hcovers⟩
      exact ⟨(name, false), hname, rfl, hne, hcovers⟩
    · rintro ⟨⟨name, _⟩, he, rfl, hne, hcovers⟩
      exact ⟨name, ⟨he, hne⟩, hcovers⟩

/-- Dropping the name of every domain keeps the meaning, unless another name stays. -/
theorem appliesTo_iff_holdsOn_iff_of_keptScope (hvalue : ∀ e ∈ entries, e.1 ≠ [])
    (hdomains : r.domains = keptScope entries) :
    (∀ domain, r.appliesTo domain = true ↔ HoldsOn entries domain) ↔ ¬ Narrowed entries := by
  constructor
  · rintro hkept ⟨hevery, e, he, hpermitted, hother⟩
    -- On a domain that no name covers, the list holds and the scope does not.
    obtain ⟨domain, hfresh⟩ := Domain.exists_not_covers (entries.map (·.1))
    rw [List.forall_mem_map] at hfresh
    have hholds : HoldsOn entries domain :=
      ⟨fun e he _ => hfresh e he, .inr ⟨_, hevery, rfl, .inl rfl⟩⟩
    rw [← hkept, appliesTo_iff_of_keptScope hvalue hdomains] at hholds
    rcases hholds.2 with hall | ⟨e', he', -, -, hcovers⟩
    · exact hother (hall e he hpermitted)
    · exact hfresh e' he' hcovers
  · intro hmixed domain
    rw [appliesTo_iff_of_keptScope hvalue hdomains, HoldsOn]
    refine and_congr_right fun _ => ?_
    constructor
    · rintro (hall | ⟨e, he, hpermitted, -, hcovers⟩)
      · by_cases hnone : ∀ e ∈ entries, e.2 = true
        · exact .inl hnone
        · push Not at hnone
          obtain ⟨e, he, hpermitted⟩ := hnone
          have hpermitted : e.2 = false := by simpa using hpermitted
          exact .inr ⟨e, he, hpermitted, .inl (hall e he hpermitted)⟩
      · exact .inr ⟨e, he, hpermitted, .inr hcovers⟩
    · rintro (hnone | ⟨⟨name, _⟩, he, rfl, hname⟩)
      · refine .inl fun e he hpermitted => ?_
        rw [hnone e he] at hpermitted
        exact nomatch hpermitted
      · by_cases hevery : name = everyDomain
        · -- The name of every domain is there, so it is the only one.
          subst hevery
          refine .inl fun e he' hpermitted => ?_
          by_contra hne
          exact hmixed ⟨he, e, he', hpermitted, hne⟩
        · exact .inr ⟨_, he, rfl, hevery, hname.resolve_left hevery⟩

/-! ## The list in force -/

/-- The list of domains in force in a rule, with its separator: the one before the marker or the
value of the domain modifier. -/
def domainList? (policy : DuplicatePolicy) (rule : Fragment) :
    Reading (Option (Fragment × Separator)) := do
  let parts ← Parts.ofFragment rule
  PageScope.domainListIn? policy parts.pattern

/-- The list, if there is one, is read into these entries. -/
def Lists (list? : Option (Fragment × Separator)) (entries : List (Text × Bool)) : Prop :=
  match list? with
  | none => entries = []
  | some (list, separator) =>
    (ValueList.parse separator list).map (·.map (·.entry)) = .ok entries

/-- The list is the name of every domain but for white space that its only entry keeps. -/
def Widened (list? : Option (Fragment × Separator)) (entries : List (Text × Bool)) : Prop :=
  ∃ list separator, list? = some (list, separator) ∧
    Text.trim Text.isWhite list.text = everyDomain ∧ (everyDomain, false) ∉ entries

/-- The domains of a rule that is read come from the list in force, if there is one. -/
theorem exists_domainList_of_parse {policy : DuplicatePolicy} {id : RuleId} {rule : Fragment}
    (h : parse policy id rule = .ok r) :
    ∃ list?, domainList? policy rule = .ok list? ∧
      PageScope.readDomains? list? = .ok r.domains := by
  obtain ⟨parts, hparts, h⟩ := Reading.bind_eq_ok_iff.mp h
  obtain ⟨scope, hscope, h⟩ := Reading.bind_eq_ok_iff.mp h
  obtain ⟨-, -, h⟩ := Reading.bind_eq_ok_iff.mp h
  obtain rfl := Except.ok.inj h
  obtain ⟨inner, modifiers, domains, hinner, hmodifiers, hdomains, rfl⟩ :=
    PageScope.parse_eq_ok_iff.mp hscope
  obtain ⟨list?, hlist, hdomains⟩ := Reading.bind_eq_ok_iff.mp hdomains
  refine ⟨list?, ?_, hdomains⟩
  refine Reading.bind_eq_ok_iff.mpr ⟨parts, hparts, ?_⟩
  refine Reading.bind_eq_ok_iff.mpr ⟨inner, hinner, ?_⟩
  exact Reading.bind_eq_ok_iff.mpr ⟨modifiers, hmodifiers, hlist⟩

/-- Read as a list, the name of every domain is one entry, which may keep white space. -/
theorem parse_of_trim_eq_everyDomain {list : Fragment} (separator : Separator)
    (h : Text.trim Text.isWhite list.text = everyDomain) :
    (ValueList.parse separator list).map (·.map (·.entry)) =
      .ok [(Text.trim Text.isBlank list.text, false)] := by
  have hstar : '*' ∈ list.text := by
    refine Text.mem_of_mem_trim (p := Text.isWhite) ?_
    rw [h]
    exact List.mem_singleton_self _
  have hother : ∀ c, c ≠ '*' → Text.isWhite c = false → c ∉ list.text := by
    intro c hne hwhite hc
    have hkept := Text.mem_trim hc hwhite
    rw [h] at hkept
    exact hne (List.mem_singleton.mp hkept)
  refine ValueList.parse_of_not_mem hstar (by decide) (hother _ (by decide) (by decide)) ?_
  cases separator <;> exact hother _ (by decide) (by decide)

/-- A rule without domains holds everywhere. -/
theorem appliesTo_of_domains_eq_empty (hdomains : r.domains = {}) (domain : Text) :
    r.appliesTo domain = true := by
  rw [appliesTo, isGeneric, hdomains]
  rfl

/-- A list that is taken for the name of every domain means that, if it is read as that name. -/
theorem appliesTo_iff_holdsOn_iff_of_everyDomain {name : Text} (hdomains : r.domains = {}) :
    (∀ domain, r.appliesTo domain = true ↔ HoldsOn [(name, false)] domain) ↔
      name = everyDomain := by
  constructor
  · intro hkept
    obtain ⟨domain, hfresh⟩ := Domain.exists_not_covers [name]
    have hholds := (hkept domain).mp (appliesTo_of_domains_eq_empty hdomains domain)
    rcases hholds.2 with hnone | ⟨e, he, -, hname⟩
    · exact nomatch hnone _ List.mem_cons_self
    · obtain rfl := List.mem_singleton.mp he
      exact hname.resolve_right (hfresh name List.mem_cons_self)
  · rintro rfl domain
    refine iff_of_true (appliesTo_of_domains_eq_empty hdomains domain) ⟨?_, .inr ?_⟩
    · intro e he hexception
      obtain rfl := List.mem_singleton.mp he
      exact nomatch hexception
    · exact ⟨_, List.mem_cons_self, rfl, .inl rfl⟩

/-- A list that is more than the name of every domain is not widened. -/
theorem not_widened_of_trim_ne {list : Fragment} {separator : Separator}
    (h : Text.trim Text.isWhite list.text ≠ everyDomain) :
    ¬ Widened (some (list, separator)) entries := by
  rintro ⟨list', separator', heq, htrim, -⟩
  obtain ⟨rfl, rfl⟩ := Prod.mk.inj (Option.some.inj heq)
  exact h htrim

/-- A list that is taken for the name of every domain is widened, unless it is read as that. -/
theorem not_narrowed_and_not_widened_iff {list : Fragment} {separator : Separator} {name : Text}
    (h : Text.trim Text.isWhite list.text = everyDomain) :
    ¬ Narrowed [(name, false)] ∧ ¬ Widened (some (list, separator)) [(name, false)] ↔
      name = everyDomain := by
  constructor
  · rintro ⟨-, hwidened⟩
    by_contra hne
    refine hwidened ⟨list, separator, rfl, h, fun hmem => hne ?_⟩
    exact (congrArg Prod.fst (List.mem_singleton.mp hmem)).symm
  · rintro rfl
    constructor
    · rintro ⟨-, e, he, -, hother⟩
      obtain rfl := List.mem_singleton.mp he
      exact hother rfl
    · rintro ⟨-, -, -, -, hmissing⟩
      exact hmissing List.mem_cons_self

/-- **The meaning of a list.** It is kept exactly if no other name stands beside the name of every
domain and this is not reached by dropping white space that the entries keep. -/
theorem appliesTo_iff_holdsOn_iff {policy : DuplicatePolicy} {id : RuleId} {text : Text}
    (h : parse policy id (.whole text) = .ok r) :
    ∃ list? entries, domainList? policy (.whole text) = .ok list? ∧ Lists list? entries ∧
      ((∀ domain, r.appliesTo domain = true ↔ HoldsOn entries domain) ↔
        ¬ Narrowed entries ∧ ¬ Widened list? entries) := by
  obtain ⟨list?, hlist, hdomains⟩ := exists_domainList_of_parse h
  refine ⟨list?, ?_⟩
  cases list? with
  | none =>
    have hempty : r.domains = {} := (Except.ok.inj hdomains).symm
    refine ⟨[], hlist, rfl, iff_of_true (fun domain => ?_) ⟨?_, ?_⟩⟩
    · exact iff_of_true (appliesTo_of_domains_eq_empty hempty domain) ⟨nofun, .inl nofun⟩
    · rintro ⟨hmem, -⟩
      exact nomatch hmem
    · rintro ⟨list, separator, hsome, -⟩
      exact nomatch hsome
  | some list =>
    obtain ⟨list, separator⟩ := list
    change PageScope.readDomains list separator = _ at hdomains
    rw [PageScope.readDomains] at hdomains
    split at hdomains
    · rename_i hevery
      have hempty : r.domains = {} := (Except.ok.inj hdomains).symm
      refine ⟨_, hlist, parse_of_trim_eq_everyDomain separator hevery, ?_⟩
      exact (appliesTo_iff_holdsOn_iff_of_everyDomain hempty).trans
        (not_narrowed_and_not_widened_iff hevery).symm
    · rename_i hevery
      obtain ⟨items, hitems, hkept⟩ := Reading.bind_eq_ok_iff.mp hdomains
      have hentries : (ValueList.parse separator list).map (·.map (·.entry)) =
          .ok (items.map (·.entry)) := by
        rw [hitems]
        rfl
      have hvalue : ∀ e ∈ items.map (·.entry), e.1 ≠ [] := fun e he =>
        ((ValueList.writable_of_parse hentries).value e he).1.ne_nil
      have hscope : r.domains = keptScope (items.map (·.entry)) := by
        rw [keptScope, ← ValueList.scope_eq_scopeOf]
        exact (Except.ok.inj hkept).symm
      refine ⟨_, hlist, hentries, ?_⟩
      rw [appliesTo_iff_holdsOn_iff_of_keptScope hvalue hscope]
      exact (and_iff_left (not_widened_of_trim_ne hevery)).symm

/-- The exception takes a domain back from the name above it. -/
theorem appliesTo_iff_holdsOn_iff_exception :
    ∃ r, parse .lastWins ⟨1, 0⟩ (.whole "a.com,~b.a.com##.ad".toList) = .ok r ∧
      ∀ domain, r.appliesTo domain = true ↔
        HoldsOn [("a.com".toList, false), ("b.a.com".toList, true)] domain := by
  obtain ⟨r, hr⟩ : ∃ r, parse .lastWins ⟨1, 0⟩ (.whole "a.com,~b.a.com##.ad".toList) = .ok r :=
    ⟨_, rfl⟩
  obtain ⟨list?, entries, hlist, hentries, hmeaning⟩ := appliesTo_iff_holdsOn_iff hr
  obtain rfl : some (⟨0, "a.com,~b.a.com".toList⟩, .comma) = list? := Except.ok.inj hlist
  obtain rfl : [("a.com".toList, false), ("b.a.com".toList, true)] = entries :=
    Except.ok.inj hentries
  refine ⟨r, hr, hmeaning.mpr ⟨?_, ?_⟩⟩
  · rintro ⟨hevery, -⟩
    exact absurd hevery (by decide)
  · rintro ⟨list, separator, heq, htrim, -⟩
    obtain ⟨rfl, rfl⟩ := Prod.mk.inj (Option.some.inj heq)
    exact absurd htrim (by decide)

/-- The name of every domain, with another one behind it, does not hold on a third. -/
theorem exists_holdsOn_not_appliesTo :
    ¬ ∀ (policy : DuplicatePolicy) (id : RuleId) (text : Text) (r : CosmeticRule)
      (list? : Option (Fragment × Separator)) (entries : List (Text × Bool)),
      parse policy id (.whole text) = .ok r → domainList? policy (.whole text) = .ok list? →
        Lists list? entries → ∀ domain, r.appliesTo domain = true ↔ HoldsOn entries domain := by
  intro hall
  obtain ⟨r, hr, hnot⟩ : ∃ r, parse .lastWins ⟨0, 0⟩ (.whole "*,a.com##.x".toList) = .ok r ∧
      r.appliesTo "b.com".toList = false := ⟨_, rfl, by decide⟩
  have hholds := hall .lastWins ⟨0, 0⟩ _ r (some (⟨0, "*,a.com".toList⟩, .comma))
    [(everyDomain, false), ("a.com".toList, false)] hr rfl rfl "b.com".toList
  rw [hnot] at hholds
  refine Bool.false_ne_true (hholds.mpr ⟨?_, .inr ⟨(everyDomain, false), by simp, rfl, .inl rfl⟩⟩)
  intro e he hexception
  rcases List.mem_pair.mp he with rfl | rfl <;> exact nomatch hexception

end CosmeticRule

end ContentFilter
