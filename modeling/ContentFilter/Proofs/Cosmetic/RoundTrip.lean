import ContentFilter.Cosmetic.Reader
import ContentFilter.Proofs.Cosmetic.Marker
import ContentFilter.Proofs.Cosmetic.PageScope
import ContentFilter.Proofs.Modifier.Writing
import ContentFilter.Proofs.ValueList.RoundTrip

/-!
# Writing a cosmetic rule

The pages of a cosmetic rule are written in front of its marker, in one of five forms (`ScopeForm`):
domains alone, a path before them, or one or both inside the brackets. The reader goes through the
result five times, for the marker, the bracket, the commas of the block, the separators of the list
and the escapes of the path, and each time a backslash matters in its own way.

Domains hold none of the characters that any of these look for. A path may hold all of them, and is
written with a backslash in front of each one (`escapePath`). So whatever looks for an unescaped
comma or bracket passes over the path, and only what stands behind it could still be taken along:
this is why a path must not end in a backslash. The marker is the one thing that nothing protects.
It has to be the first, and that is a condition on the whole text.
-/

set_option autoImplicit false

namespace ContentFilter

namespace PageScope

/-! ## Paths -/

/-- The characters of a path that are written with a backslash in front of them. -/
def isEscaped (c : Char) : Bool := c == '\\' || c == ',' || c == ']'

/-- A path as it is written in a block. -/
def escapePath (path : Text) : Text :=
  path.flatMap fun c => if isEscaped c then ['\\', c] else [c]

theorem escapePath_cons (c : Char) (path : Text) :
    escapePath (c :: path) = (if isEscaped c then ['\\', c] else [c]) ++ escapePath path := rfl

/-- A character other than a backslash passes through. -/
theorem unescapePath_go_cons {c : Char} (hc : c ≠ '\\') (done rest : Text) :
    unescapePath.go done (c :: rest) = unescapePath.go (c :: done) rest := by
  cases rest with
  | nil => rfl
  | cons d rest => rw [unescapePath.go, if_neg fun h => hc h.1]

/-- Resolving the escapes undoes writing them. -/
theorem unescapePath_escapePath (path : Text) : unescapePath (escapePath path) = path := by
  have hgo : ∀ done, unescapePath.go done (escapePath path) = done.reverse ++ path := by
    induction path with
    | nil => intro done; simp [escapePath, unescapePath.go]
    | cons c path ih =>
      intro done
      have hrest := ih (c :: done)
      rw [List.reverse_cons, List.append_assoc, List.singleton_append] at hrest
      rw [escapePath_cons]
      by_cases hc : isEscaped c = true
      · have hescape : c = ']' ∨ c = '[' ∨ c = ',' ∨ c = '\\' := by
          simp only [isEscaped, Bool.or_eq_true, beq_iff_eq] at hc
          tauto
        rw [if_pos hc]
        show unescapePath.go done ('\\' :: c :: escapePath path) = _
        rw [unescapePath.go, if_pos ⟨rfl, hescape⟩, hrest]
      · have hplain : c ≠ '\\' := by
          rintro rfl
          exact hc rfl
        rw [if_neg hc, List.singleton_append, unescapePath_go_cons hplain, hrest]
  exact hgo []

/-- No comma or bracket of a written path is seen, whatever stands before the path. -/
theorem unbroken_escapePath {c : Char} (hc : c = ',' ∨ c = ']') (path : Text)
    (previous : Option Char) :
    Text.Unbroken (Text.unescaped c) previous (escapePath path) := by
  have hbackslash : ∀ previous, Text.unescaped c previous '\\' = false := by
    intro previous
    rcases hc with rfl | rfl <;> rfl
  induction path generalizing previous with
  | nil => trivial
  | cons d path ih =>
    rw [escapePath_cons]
    by_cases hd : isEscaped d = true
    · rw [if_pos hd]
      exact ⟨hbackslash previous, by simp [Text.unescaped], ih (some d)⟩
    · rw [if_neg hd]
      refine ⟨?_, ih (some d)⟩
      have hne : d ≠ c := by
        rintro rfl
        rcases hc with rfl | rfl <;> exact hd rfl
      simp [Text.unescaped, hne]

theorem getLast?_escapePath (path : Text) : (escapePath path).getLast? = path.getLast? := by
  induction path using List.reverseRecOn with
  | nil => rfl
  | append_singleton path c _ =>
    have hlast : (escapePath [c]).getLast? = some c := by
      rw [escapePath_cons]
      split <;> rfl
    have hne : escapePath [c] ≠ [] := by
      intro hnil
      rw [hnil] at hlast
      exact nomatch hlast
    rw [escapePath, List.flatMap_append, ← escapePath, ← escapePath,
      List.getLast?_append_of_ne_nil _ hne, hlast, List.getLast?_concat]

/-- A path that can be written in a block. -/
structure IsPath (path : Text) : Prop where
  ne_nil : path ≠ []
  last : ∀ c ∈ path.getLast?, Text.isWhite c = false ∧ c ≠ '\\'

/-! ## Domains -/

/-- A name that can be written in every list of domains. -/
structure IsName (name : Text) : Prop where
  ne_nil : name ≠ []
  plain : ∀ c ∈ name, Text.isWhite c = false ∧ c ∉ [',', '|', '[', ']', '\\']
  head : name.head? ≠ some ValueList.exceptionMarker
  ne_every : name ≠ everyDomain

instance (name : Text) : Decidable (IsName name) :=
  -- Only the characters of the name are gone through.
  have : Decidable (∀ c ∈ name, Text.isWhite c = false ∧ c ∉ [',', '|', '[', ']', '\\']) :=
    List.decidableBAll _ name
  decidable_of_iff
    (name ≠ [] ∧ (∀ c ∈ name, Text.isWhite c = false ∧ c ∉ [',', '|', '[', ']', '\\']) ∧
      name.head? ≠ some ValueList.exceptionMarker ∧ name ≠ everyDomain)
    ⟨fun h => ⟨h.1, h.2.1, h.2.2.1, h.2.2.2⟩, fun h => ⟨h.ne_nil, h.plain, h.head, h.ne_every⟩⟩

theorem IsName.isValue {name : Text} (h : IsName name) : ValueList.IsValue name := by
  have hblank : ∀ c ∈ name, Text.isBlank c = false := by
    intro c hc
    by_contra hne
    have hwhite := Text.isWhite_of_isBlank (Bool.not_eq_false _ ▸ hne)
    rw [(h.plain c hc).1] at hwhite
    exact nomatch hwhite
  refine ⟨h.ne_nil, fun c hc => ⟨?_, hblank c (List.mem_of_head? hc)⟩, fun c hc =>
    hblank c (List.mem_of_getLast? hc)⟩
  rintro rfl
  exact h.head hc

section Names

variable {entries : List (Text × Bool)} (h : ∀ e ∈ entries, IsName e.1)

include h

/-- A written list holds nothing but its separators, its markers and the characters of names. -/
theorem mem_join {separator : Separator} {c : Char}
    (hc : c ∈ ValueList.join separator entries) :
    c = separator.char ∨ Text.isWhite c = false ∧ c ∉ [',', '|', '[', ']', '\\'] := by
  rw [ValueList.join_eq_join_write] at hc
  rcases Text.mem_join hc with hc | ⟨t, ht, hc⟩
  · exact .inl (List.mem_singleton.mp hc)
  · obtain ⟨e, he, rfl⟩ := List.mem_map.mp ht
    have hname := (h e he).plain c
    obtain ⟨name, exception⟩ := e
    cases exception with
    | false => exact .inr (hname hc)
    | true =>
      rcases List.mem_cons.mp hc with rfl | hc
      · exact .inr (by decide)
      · exact .inr (hname hc)

/-- A list of names holds no white space. -/
theorem not_isWhite_of_mem_join {separator : Separator} {c : Char}
    (hc : c ∈ ValueList.join separator entries) : Text.isWhite c = false := by
  rcases mem_join h hc with rfl | hplain
  · cases separator <;> decide
  · exact hplain.1

/-- A list of names holds none of the characters that would end it or a part of the block, except
for its own separator. -/
theorem not_mem_join {separator : Separator} {c : Char} (hseparator : c ≠ separator.char)
    (hc : c ∈ [',', '|', '[', ']', '\\']) : c ∉ ValueList.join separator entries := by
  intro hmem
  rcases mem_join h hmem with rfl | hplain
  · exact hseparator rfl
  · exact hplain.2 hc

/-- Names can be written as a list with either separator. -/
theorem writable_of_names (separator : Separator) : ValueList.Writable separator entries := by
  have hchar : separator.char ∈ [',', '|', '[', ']', '\\'] := by cases separator <;> decide
  constructor
  · intro e he
    refine ⟨(h e he).isValue, Text.guarded_of_not_mem fun hmem => ?_⟩
    exact ((h e he).plain _ hmem).2 hchar
  · intro e he hlast
    exact ((h e (List.mem_of_getLast? he)).plain _ (List.mem_of_getLast? hlast)).2 hchar

/-- A list of names is read back. -/
theorem parse_join (separator : Separator) (offset : Nat) :
    (ValueList.parse separator ⟨offset, ValueList.join separator entries⟩).map
      (·.map (·.entry)) = .ok entries := by
  refine (ValueList.parse_join_iff (writable_of_names h separator) offset).mpr fun e he => ?_
  have hplain := (h e (List.dropLast_subset _ he)).plain
  rw [Text.endsInBackslash, beq_eq_false_iff_ne]
  intro hlast
  exact (hplain '\\' (List.mem_of_getLast? hlast)).2 (by decide)

theorem join_ne_nil (hne : entries ≠ []) (separator : Separator) :
    ValueList.join separator entries ≠ [] := by
  intro hnil
  have hparse := parse_join h separator 0
  rw [hnil] at hparse
  exact hne (Except.ok.inj hparse).symm

/-- No list of names is taken for the name of every domain. -/
theorem trim_join_ne_everyDomain (separator : Separator) :
    Text.trim Text.isWhite (ValueList.join separator entries) ≠ everyDomain := by
  have htrim : Text.trim Text.isWhite (ValueList.join separator entries) =
      ValueList.join separator entries :=
    Text.trim_of_ends (fun c hc => not_isWhite_of_mem_join h (List.mem_of_head? hc))
      fun c hc => not_isWhite_of_mem_join h (List.mem_of_getLast? hc)
  rw [htrim]
  intro hevery
  have hparse := parse_join h separator 0
  have hstar : (ValueList.parse separator ⟨0, everyDomain⟩).map (·.map (·.entry)) =
      .ok [(everyDomain, false)] := by
    cases separator <;> decide
  rw [hevery, hstar] at hparse
  obtain rfl := Except.ok.inj hparse
  exact (h (everyDomain, false) List.mem_cons_self).ne_every rfl

/-- **Domains.** -/
theorem readDomains_join (separator : Separator) (offset : Nat) :
    readDomains ⟨offset, ValueList.join separator entries⟩ separator =
      .ok (ValueList.scopeOf entries) := by
  obtain ⟨items, hitems, hentries⟩ := Reading.map_eq_ok_iff.mp (parse_join h separator offset)
  have hnames : (ValueList.scopeOf entries).permitted.filter (· != everyDomain) =
      (ValueList.scopeOf entries).permitted := by
    rw [List.filter_eq_self]
    intro name hname
    obtain ⟨e, he, rfl⟩ := List.mem_map.mp hname
    exact bne_iff_ne.mpr (h e (List.mem_of_mem_filter he)).ne_every
  have hscope : ValueList.scope items = ValueList.scopeOf entries := by
    rw [ValueList.scope_eq_scopeOf, hentries]
  rw [readDomains, if_neg (trim_join_ne_everyDomain h separator), hitems]
  show Except.ok (Scope.mk ((ValueList.scope items).permitted.filter (· != everyDomain))
    (ValueList.scope items).restricted) = _
  rw [hscope, hnames]

end Names

/-! ## The block -/

/-- The block that holds assignments; without any there is none. -/
def bracketed (as : List Assignment) : Text :=
  if as.isEmpty then [] else blockOpening ++ Assignment.block as ++ [blockClosing]

/-- The brackets are found again. -/
theorem Parts.ofFragment_brackets {block domains : Text} (hne : block ≠ [])
    (hguarded : Text.Guarded blockClosing block) (hend : block.getLast? ≠ some '\\') :
    ∃ opened behind, ofFragment (.whole (blockOpening ++ block ++ [blockClosing] ++ domains)) =
      .ok ⟨some ⟨opened, block⟩, ⟨behind, domains⟩⟩ := by
  have htext : blockOpening ++ block ++ [blockClosing] ++ domains =
      blockOpening ++ (block ++ blockClosing :: domains) := by simp
  have hempty : block.isEmpty = false := by simpa using hne
  refine ⟨0 + Text.byteLength blockOpening,
    0 + Text.byteLength blockOpening + Text.byteLength (block ++ [blockClosing]), ?_⟩
  rw [ofFragment, Fragment.whole, htext, Fragment.strip?_append]
  simp only [Fragment.splitFirst?, Text.splitFirst?_unescaped_append hguarded hend,
    Option.map_some, Fragment.around, hempty, Bool.false_eq_true, if_false]
  rfl

/-- The block of assignments is found, and the assignments are read from it. -/
theorem exists_readModifiers (policy : DuplicatePolicy) {as : List Assignment} {domains : Text}
    (hwritable : ∀ a ∈ as, a.Writable .cosmetic)
    (hclosing : ∀ a ∈ as, ∀ previous, Text.Unbroken (Text.unescaped blockClosing) previous a.text)
    (hnodup : (as.map (·.kind)).Nodup) (hdomains : ¬ blockOpening <+: domains) :
    ∃ block? offset map,
      Parts.ofFragment (.whole (bracketed as ++ domains)) = .ok ⟨block?, ⟨offset, domains⟩⟩ ∧
      readModifiers policy block? = .ok map ∧ List.Forall₂ Assignment.ReadAs as map.entries := by
  by_cases hne : as = []
  · subst hne
    refine ⟨none, 0, {}, ?_, rfl, .nil⟩
    rw [Parts.ofFragment, Fragment.strip?_eq_none (by exact hdomains)]
    rfl
  · have hguarded : Text.Guarded blockClosing (Assignment.block as) := by
      rw [Text.guarded_iff_unbroken]
      refine Text.unbroken_join (fun _ => rfl) ?_ none
      rw [List.forall_mem_map]
      exact hclosing
    obtain ⟨c, hlast, hc⟩ := Assignment.exists_getLast?_block hwritable hne
    have hend : (Assignment.block as).getLast? ≠ some '\\' := by
      rw [hlast]
      simpa using hc
    have hblock : Assignment.block as ≠ [] := List.ne_nil_of_mem (List.mem_of_getLast? hlast)
    obtain ⟨opened, behind, hparts⟩ :=
      Parts.ofFragment_brackets hblock hguarded hend
    obtain ⟨map, hmap, hread⟩ := Assignment.parse_block policy hwritable hne hnodup opened
    refine ⟨some ⟨opened, Assignment.block as⟩, behind, map, ?_, ?_, hread⟩
    · rw [bracketed, if_neg (by simpa using hne), hparts]
    · rw [readModifiers_some, hmap]

/-- The assignment of a path. -/
def pathAssignment (path : Text) : Assignment := ⟨.path, "path".toList, escapePath path⟩

/-- The assignment of domains. -/
def domainAssignment (entries : List (Text × Bool)) : Assignment :=
  ⟨.domain, "domain".toList, ValueList.join .pipe entries⟩

/-- An assignment that a block before a marker can hold. -/
def Assignable (a : Assignment) : Prop :=
  a.Writable .cosmetic ∧
    ∀ previous, Text.Unbroken (Text.unescaped blockClosing) previous a.text

/-- A value that neither comma nor bracket ends can be assigned. -/
theorem assignable_mk {kind : ModifierKind} {name value : Text}
    (hnamed : ModifierKind.named? name = some kind)
    (hspec : kind.spec.ruleKinds.meets RuleKinds.cosmetic = true ∧ kind.spec.value = .required)
    (hname : name.all fun c =>
      c ∉ ['=', ',', ']', Modifier.negationMarker] && !Text.isWhite c)
    (hvalue : ∀ c, c = ',' ∨ c = ']' → ∀ previous, Text.Unbroken (Text.unescaped c) previous value)
    (hne : value ≠ [])
    (hlast : ∀ c, value.getLast? = some c → Text.isWhite c = false ∧ c ≠ '\\') :
    Assignable ⟨kind, name, value⟩ := by
  simp only [List.all_eq_true, Bool.and_eq_true, decide_eq_true_eq, Bool.not_eq_true'] at hname
  constructor
  · refine ⟨hnamed, hspec.1, hspec.2, fun c hc => ?_, hne, ?_, hlast⟩
    · obtain ⟨hplain, hwhite⟩ := hname c hc
      simp only [List.mem_cons, not_or] at hplain
      exact ⟨hplain.1, hplain.2.1, hplain.2.2.2.1, hwhite⟩
    · exact Text.guarded_iff_unbroken.mpr (hvalue ',' (.inl rfl) none)
  · intro previous
    rw [Assignment.text, Text.unbroken_append, Text.unbroken_cons]
    refine ⟨Text.unbroken_of_not_mem fun hmem => ?_, rfl, hvalue ']' (.inr rfl) _⟩
    exact (hname _ hmem).1 (by decide)

/-- A block can hold the assignment of a path. -/
theorem assignable_path {path : Text} (h : IsPath path) : Assignable (pathAssignment path) := by
  have hlast := getLast?_escapePath path
  have hne : escapePath path ≠ [] := by
    intro hnil
    rw [hnil, eq_comm, List.getLast?_nil, List.getLast?_eq_none_iff] at hlast
    exact h.ne_nil hlast
  exact assignable_mk (by decide) (by decide) (by decide)
    (fun c hc => unbroken_escapePath hc path) hne fun c hc => h.last c (hlast ▸ hc)

/-- A block can hold the assignment of domains. -/
theorem assignable_domain {entries : List (Text × Bool)} (h : ∀ e ∈ entries, IsName e.1)
    (hne : entries ≠ []) : Assignable (domainAssignment entries) := by
  refine assignable_mk (by decide) (by decide) (by decide)
    (fun c hc previous => ?_) (join_ne_nil h hne .pipe) fun c hc => ?_
  · refine Text.unbroken_of_not_mem ?_
    rcases hc with rfl | rfl <;> exact not_mem_join h (by decide) (by decide)
  · have hmem := List.mem_of_getLast? hc
    refine ⟨not_isWhite_of_mem_join h hmem, ?_⟩
    rintro rfl
    exact not_mem_join h (by decide) (by decide) hmem

/-! ## The five forms -/

/-- How domains and a path are written in front of a marker. -/
inductive ScopeForm where
  | domains
  | pathThenDomains (path : Text)
  | domainBlock
  | pathDomainBlock (path : Text)
  | domainPathBlock (path : Text)

namespace ScopeForm

/-- What is written for domains in this form. -/
def text (entries : List (Text × Bool)) : ScopeForm → Text
  | domains => ValueList.join .comma entries
  | pathThenDomains path =>
    "[$path=".toList ++ escapePath path ++ "]".toList ++ ValueList.join .comma entries
  | domainBlock => "[$domain=".toList ++ ValueList.join .pipe entries ++ "]".toList
  | pathDomainBlock path =>
    "[$path=".toList ++ escapePath path ++ ",domain=".toList ++ ValueList.join .pipe entries ++
      "]".toList
  | domainPathBlock path =>
    "[$domain=".toList ++ ValueList.join .pipe entries ++ ",path=".toList ++ escapePath path ++
      "]".toList

/-- The path that is written. -/
def path? : ScopeForm → Option Text
  | pathThenDomains path | pathDomainBlock path | domainPathBlock path => some path
  | domains | domainBlock => none

/-- Whether the domains stand inside the brackets. -/
def inBlock : ScopeForm → Bool
  | domainBlock | pathDomainBlock _ | domainPathBlock _ => true
  | domains | pathThenDomains _ => false

/-- The assignments in the block. -/
def assignments (entries : List (Text × Bool)) : ScopeForm → List Assignment
  | domains => []
  | pathThenDomains path => [pathAssignment path]
  | domainBlock => [domainAssignment entries]
  | pathDomainBlock path => [pathAssignment path, domainAssignment entries]
  | domainPathBlock path => [domainAssignment entries, pathAssignment path]

/-- What is to be known of domains to write them in this form. -/
structure Admits (form : ScopeForm) (entries : List (Text × Bool)) : Prop where
  names : ∀ e ∈ entries, IsName e.1
  path : ∀ path, form.path? = some path → IsPath path
  /-- A block cannot say that there are no domains. -/
  ne_nil : form.inBlock = true → entries ≠ []

/-- Each form is a block, which may be missing, and a list, which may be empty. -/
theorem text_eq (form : ScopeForm) (entries : List (Text × Bool)) :
    form.text entries = bracketed (form.assignments entries) ++
      (if form.inBlock then [] else ValueList.join .comma entries) := by
  -- The constants agree by evaluation, once both sides are bracketed to the right.
  cases form with
  | domains => rfl
  | pathThenDomains path =>
    show "[$path=".toList ++ escapePath path ++ "]".toList ++ ValueList.join .comma entries =
      blockOpening ++ ("path".toList ++ '=' :: escapePath path) ++ [blockClosing] ++
        ValueList.join .comma entries
    simp only [List.append_assoc]
    rfl
  | domainBlock =>
    show "[$domain=".toList ++ ValueList.join .pipe entries ++ "]".toList =
      blockOpening ++ ("domain".toList ++ '=' :: ValueList.join .pipe entries) ++ [blockClosing] ++
        []
    simp only [List.append_assoc, List.append_nil]
    rfl
  | pathDomainBlock path =>
    show "[$path=".toList ++ escapePath path ++ ",domain=".toList ++ ValueList.join .pipe entries ++
        "]".toList =
      blockOpening ++ ("path".toList ++ '=' :: escapePath path ++ [','] ++
        ("domain".toList ++ '=' :: ValueList.join .pipe entries)) ++ [blockClosing] ++ []
    simp only [List.append_assoc, List.append_nil]
    rfl
  | domainPathBlock path =>
    show "[$domain=".toList ++ ValueList.join .pipe entries ++ ",path=".toList ++ escapePath path ++
        "]".toList =
      blockOpening ++ ("domain".toList ++ '=' :: ValueList.join .pipe entries ++ [','] ++
        ("path".toList ++ '=' :: escapePath path)) ++ [blockClosing] ++ []
    simp only [List.append_assoc, List.append_nil]
    rfl

section Admits

variable {form : ScopeForm} {entries : List (Text × Bool)} (h : form.Admits entries)

include h

/-- A block can hold every assignment of a form that admits the domains. -/
theorem Admits.assignable {a : Assignment} (ha : a ∈ form.assignments entries) :
    Assignable a := by
  have hpath : ∀ path, form.path? = some path → Assignable (pathAssignment path) :=
    fun path hp => assignable_path (h.path path hp)
  have hdomain : form.inBlock = true → Assignable (domainAssignment entries) :=
    fun hin => assignable_domain h.names (h.ne_nil hin)
  cases form <;> simp only [assignments, List.mem_cons, List.not_mem_nil, or_false] at ha
  case pathThenDomains path => exact ha ▸ hpath path rfl
  case domainBlock => exact ha ▸ hdomain rfl
  case pathDomainBlock path | domainPathBlock path =>
    rcases ha with rfl | rfl
    all_goals first | exact hpath path rfl | exact hdomain rfl

/-- What stands outside the brackets does not look like the opening of a block. -/
theorem Admits.not_blockOpening :
    ¬ blockOpening <+: if form.inBlock then [] else ValueList.join .comma entries := by
  intro hopening
  have hmem : '[' ∈ if form.inBlock then [] else ValueList.join .comma entries :=
    hopening.subset (by decide)
  split at hmem
  · exact nomatch hmem
  · exact not_mem_join h.names (by decide) (by decide) hmem

/-- The domains are read where they stand, in the block or behind it. -/
theorem Admits.readDomains_eq {map : ModifierMap} (offset : Nat)
    (hread : List.Forall₂ Assignment.ReadAs (form.assignments entries) map.entries) :
    (domainList? map ⟨offset, if form.inBlock then [] else ValueList.join .comma entries⟩ >>=
      readDomains?) = .ok (ValueList.scopeOf entries) := by
  have hget := Assignment.rel_get? hread .domain
  cases hin : form.inBlock with
  | true =>
    have hfind : (form.assignments entries).find? (·.kind == .domain) =
        some (domainAssignment entries) := by
      cases form <;> first | rfl | exact nomatch hin
    rw [hfind] at hget
    cases hmodifier : map.get? .domain with
    | none => rw [hmodifier] at hget; exact nomatch hget
    | some modifier =>
      rw [hmodifier, Option.rel_some_some] at hget
      obtain ⟨list, hlist, htext⟩ := Option.map_eq_some_iff.mp hget.2
      obtain ⟨start, _⟩ := list
      obtain rfl := htext
      rw [domainList?, hmodifier]
      show readDomains? (modifier.value.map (·, .pipe)) = _
      rw [hlist]
      exact readDomains_join h.names .pipe start
  | false =>
    have hfind : (form.assignments entries).find? (·.kind == .domain) = none := by
      cases form <;> first | rfl | exact nomatch hin
    rw [hfind] at hget
    cases hmodifier : map.get? .domain with
    | some modifier => rw [hmodifier] at hget; exact nomatch hget
    | none =>
      rw [domainList?, hmodifier]
      show readDomains? (if (ValueList.join .comma entries).isEmpty = true then none
        else some (⟨offset, ValueList.join .comma entries⟩, .comma)) = _
      by_cases hnil : entries = []
      · subst hnil
        rfl
      · rw [if_neg (by simpa using join_ne_nil h.names hnil .comma)]
        exact readDomains_join h.names .comma offset

/-- **The page scope.** The domains and the path are read from each of the forms. -/
theorem Admits.parse_text (policy : DuplicatePolicy) :
    ∃ raw, PageScope.parse policy (.whole (form.text entries)) =
      .ok ⟨ValueList.scopeOf entries, form.path?, none, raw⟩ := by
  have hnodup : ((form.assignments entries).map (·.kind)).Nodup := by
    cases form <;> simp [assignments, pathAssignment, domainAssignment]
  obtain ⟨block?, offset, map, hparts, hmap, hread⟩ := exists_readModifiers policy
    (fun a ha => (h.assignable ha).1) (fun a ha => (h.assignable ha).2) hnodup h.not_blockOpening
  have hpath : (map.value? .path).map unescapePath = form.path? := by
    rw [Assignment.value?_eq hread]
    cases form <;> simp [assignments, path?, pathAssignment, domainAssignment,
      unescapePath_escapePath]
  have hurl : map.value? .url = none := by
    rw [Assignment.value?_eq hread]
    cases form <;> rfl
  refine ⟨block?.map (·.text), ?_⟩
  have hdomains := h.readDomains_eq offset hread
  rw [parse_eq, text_eq, hparts]
  show (readModifiers policy block? >>= fun modifiers => domainList? modifiers _ >>= fun list? =>
    readDomains? list? >>= fun scope => pure (ofParts block? modifiers scope)) = _
  rw [hmap]
  show (domainList? map _ >>= fun list? =>
    readDomains? list? >>= fun scope => pure (ofParts block? map scope)) = _
  rw [← bind_assoc, hdomains]
  show Except.ok (ofParts block? map (ValueList.scopeOf entries)) = _
  rw [ofParts, hpath, hurl]

end Admits

end ScopeForm

end PageScope

namespace CosmeticRule

/-! ## The rule -/

/-- A content that can stand behind a marker: it is not blank at its ends, and it calls no
scriptlet. -/
structure IsContent (marker : Marker) (content : Text) : Prop where
  ne_nil : content ≠ []
  head : ∀ c ∈ content.head?, Text.isWhite c = false
  last : ∀ c ∈ content.getLast?, Text.isWhite c = false
  call : marker.isScript = true → ¬ scriptletMark <+: content

/-- A rule in which the marker is the first one, and its content one that can stand behind it, falls
into these parts. -/
theorem IsContent.ofFragment {marker : Marker} {content front : Text}
    (h : IsContent marker content)
    (hfirst : ∀ s t, front = s ++ t → t ≠ [] →
      ∀ m : Marker, ¬ m.text <+: t ++ marker.text ++ content) :
    ∃ offset, Parts.ofFragment (.whole (front ++ marker.text ++ content)) =
      .ok ⟨.whole front, marker, ⟨offset, content⟩⟩ := by
  have hempty : content.isEmpty = false := by simpa using h.ne_nil
  have htrim := Fragment.trim_of_ends (p := Text.isWhite)
    (f := ⟨0 + Text.byteLength (front ++ marker.text), content⟩) h.head h.last
  refine ⟨0 + Text.byteLength (front ++ marker.text), ?_⟩
  rw [Parts.ofFragment, Fragment.whole, Marker.split?_append hfirst]
  simp only [Fragment.after, htrim, hempty, Bool.false_eq_true, if_false]
  rfl

/-- A content that calls no scriptlet passes the check of calls. -/
theorem IsContent.checkCall {marker : Marker} {content : Text} (h : IsContent marker content)
    (offset : Nat) : checkCall marker ⟨offset, content⟩ = .ok () := by
  have hcall : callIn? marker ⟨offset, content⟩ = none := by
    rw [callIn?]
    split
    · rename_i hscript
      exact Fragment.strip?_eq_none (h.call hscript)
    · rfl
  rw [CosmeticRule.checkCall, hcall]

open PageScope in
/-- **Round trip.** A rule that is written with domains, a path and a content is read into the rule
that has these, as long as its marker is the first. -/
theorem parse_form_marker_content (policy : DuplicatePolicy) (id : RuleId) {form : ScopeForm}
    {entries : List (Text × Bool)} {marker : Marker} {content : Text}
    (hform : form.Admits entries) (hcontent : IsContent marker content)
    (hfirst : ∀ s t, form.text entries = s ++ t → t ≠ [] →
      ∀ m : Marker, ¬ m.text <+: t ++ marker.text ++ content) :
    parse policy id (.whole (form.text entries ++ marker.text ++ content)) = .ok {
      id
      text := form.text entries ++ marker.text ++ content
      marker
      content
      domains := ValueList.scopeOf entries
      path := form.path?
      url := none } := by
  obtain ⟨offset, hparts⟩ := hcontent.ofFragment hfirst
  obtain ⟨raw, hscope⟩ := hform.parse_text policy
  rw [parse, hparts]
  show (PageScope.parse policy (.whole (form.text entries)) >>= fun scope => _) = _
  rw [hscope]
  show (CosmeticRule.checkCall marker ⟨offset, content⟩ >>= fun _ => _) = _
  rw [hcontent.checkCall]
  rfl

/-- The path holds each of the characters that the reader looks for. -/
theorem parse_form_marker_content_delimiters :
    (PageScope.ScopeForm.pathDomainBlock "/a\\],b".toList).Admits
        [("a.com".toList, false), ("b.a.com".toList, true)] ∧
      parse .lastWins ⟨1, 0⟩ (.whole "[$path=/a\\\\\\]\\,b,domain=a.com|~b.a.com]##.ad p".toList) = .ok {
        id := ⟨1, 0⟩
        text := "[$path=/a\\\\\\]\\,b,domain=a.com|~b.a.com]##.ad p".toList
        marker := ⟨.elementHiding, false⟩
        content := ".ad p".toList
        domains := ⟨["a.com".toList], ["b.a.com".toList]⟩
        path := some "/a\\],b".toList
        url := none } := by
  let form := PageScope.ScopeForm.pathDomainBlock "/a\\],b".toList
  let entries := [("a.com".toList, false), ("b.a.com".toList, true)]
  have hform : form.Admits entries := by
    refine ⟨?_, ?_, fun _ => by decide⟩
    · intro e he
      rcases List.mem_pair.mp he with rfl | rfl
      · show PageScope.IsName "a.com".toList
        decide
      · show PageScope.IsName "b.a.com".toList
        decide
    · rintro path hpath
      obtain rfl := Option.some.inj hpath
      refine ⟨by decide, fun c hc => ?_⟩
      obtain rfl : 'b' = c := Option.some.inj hc
      decide
  let marker : Marker := ⟨.elementHiding, false⟩
  have hcontent : IsContent marker ".ad p".toList := by
    refine ⟨by decide, fun c hc => ?_, fun c hc => ?_, by decide⟩
    · obtain rfl : '.' = c := Option.some.inj hc
      decide
    · obtain rfl : 'p' = c := Option.some.inj hc
      decide
  have htails : ∀ t ∈ (form.text entries).tails, t ≠ [] → ∀ m ∈ Marker.all,
      ¬ m.text <+: t ++ marker.text ++ ".ad p".toList := by decide
  have htext : "[$path=/a\\\\\\]\\,b,domain=a.com|~b.a.com]##.ad p".toList =
      form.text entries ++ marker.text ++ ".ad p".toList := by decide
  refine ⟨hform, ?_⟩
  rw [htext]
  exact parse_form_marker_content .lastWins ⟨1, 0⟩ hform hcontent fun s t hst hne m =>
    htails t ((List.mem_tails _ _).mpr ⟨s, hst.symm⟩) hne m (Marker.mem_all m)

end CosmeticRule

end ContentFilter
