import ContentFilter.Proofs.Cosmetic.PageScope
import ContentFilter.Proofs.Modifier.Duplicates
import ContentFilter.Proofs.Network.Steps
import ContentFilter.Rule.Reader

/-!
# The policy on duplicates

A rule is read under one of two policies, and which one it is matters to a single reader, that of
the modifier block. All readers before it and behind it are the same under both and never refuse for
a duplicate. So two readings of a line part ways at most once, and only if two tokens of its block
name the same kind of modifier (`RepeatsKind`).

What the strict policy costs is exactly this. Of the lines that the lenient policy accepts it
accepts those whose block repeats no kind, and it reads them as the same rules.
-/

set_option autoImplicit false

namespace ContentFilter

/-! ## Value lists -/

namespace ValueList

theorem sparesDuplicates_readItem (total : Nat) (piece : Fragment) :
    (readItem total piece).SparesDuplicates := by
  rw [readItem]
  grind

theorem sparesDuplicates_readItems (total : Nat) (pieces : List Fragment) :
    (readItems total pieces).SparesDuplicates := by
  induction pieces with
  | nil => trivial
  | cons piece pieces ih =>
    rw [readItems]
    refine (sparesDuplicates_readItem total piece).bind fun item => ?_
    exact ih.bind fun items => trivial

/-- No list is refused for a duplicate. -/
theorem sparesDuplicates_parse (separator : Separator) (list : Fragment) :
    (parse separator list).SparesDuplicates := by
  rw [parse]
  generalize list.trimEnd Text.isBlank = core
  cases core.text.getLast? with
  | none => trivial
  | some c =>
    dsimp only
    split
    · rfl
    · exact sparesDuplicates_readItems _ _

end ValueList

/-! ## Network rules -/

/-- The list that a modifier holds is not refused for a duplicate. -/
theorem Modifier.sparesDuplicates_readScope (m : Modifier) : m.readScope.SparesDuplicates := by
  rw [readScope]
  cases m.value with
  | none => trivial
  | some list => exact (ValueList.sparesDuplicates_parse .pipe list).map

/-- No effect is refused for a duplicate. -/
theorem Modifier.sparesDuplicates_effect (allowlist : Bool) (m : Modifier) :
    (m.effect allowlist).SparesDuplicates := by
  have hscope := m.sparesDuplicates_readScope
  rw [effect]
  generalize m.kind = kind
  cases kind with
  | domain => exact hscope.map
  | app => exact hscope.map
  | method => exact hscope.map
  | replace =>
    dsimp only
    split
    · rfl
    · trivial
  | _ => trivial

namespace NetworkRule

/-- Applying modifiers is not refused for a duplicate. -/
theorem sparesDuplicates_applyAll (r : NetworkRule) (modifiers : List Modifier) :
    (r.applyAll modifiers).SparesDuplicates := by
  induction modifiers generalizing r with
  | nil => trivial
  | cons modifier modifiers ih =>
    rw [applyAll]
    refine .bind ?_ ih
    exact (modifier.sparesDuplicates_effect r.allowlist).map

/-- The strict policy is stricter on the modifiers of a network rule. -/
theorem stricter_readModifiers (parts : Parts) :
    Reading.Stricter (∃ block ∈ parts.block, ModifierMap.RepeatsKind block)
      (readModifiers .reject parts) (readModifiers .lastWins parts) := by
  rw [readModifiers, readModifiers]
  cases parts.block with
  | none => exact Reading.SparesDuplicates.stricter trivial (by simp)
  | some block => simpa using ModifierMap.stricter_parse (ruleKinds parts.allowlist) block

/-- **One network rule.** -/
theorem stricter_parse (id : RuleId) (rule : Fragment) :
    Reading.Stricter (∃ block ∈ (Parts.ofFragment rule).block, ModifierMap.RepeatsKind block)
      (parse .reject id rule) (parse .lastWins id rule) := by
  rw [parse_eq, parse_eq]
  refine (stricter_readModifiers _).bind fun modifiers => ?_
  split
  · rfl
  · exact sparesDuplicates_applyAll _ _

end NetworkRule

/-! ## Cosmetic rules -/

namespace PageScope

theorem sparesDuplicates_ofFragment (pattern : Fragment) :
    (Parts.ofFragment pattern).SparesDuplicates := by
  rw [Parts.ofFragment]
  grind

/-- The strict policy is stricter on the modifiers of a block before a marker. -/
theorem stricter_readModifiers (block? : Option Fragment) :
    Reading.Stricter (∃ block ∈ block?, ModifierMap.RepeatsKind block)
      (readModifiers .reject block?) (readModifiers .lastWins block?) := by
  cases block? with
  | none => exact Reading.SparesDuplicates.stricter trivial (by simp)
  | some block =>
    rw [readModifiers_some, readModifiers_some]
    simpa using ModifierMap.stricter_parse .cosmetic block

theorem sparesDuplicates_domainList? (modifiers : ModifierMap) (domains : Fragment) :
    (domainList? modifiers domains).SparesDuplicates := by
  rw [domainList?]
  grind

theorem sparesDuplicates_readDomains? (list? : Option (Fragment × Separator)) :
    (readDomains? list?).SparesDuplicates := by
  cases list? with
  | none => trivial
  | some list =>
    rw [readDomains?, readDomains]
    split
    · trivial
    · exact (ValueList.sparesDuplicates_parse _ _).bind fun items => trivial

/-- The modifier block of what stands before a marker. -/
def block? (pattern : Fragment) : Option Fragment :=
  (Parts.ofFragment pattern).toOption.bind (·.block)

/-- The strict policy is stricter on a page scope. -/
theorem stricter_parse (pattern : Fragment) :
    Reading.Stricter (∃ block ∈ block? pattern, ModifierMap.RepeatsKind block)
      (parse .reject pattern) (parse .lastWins pattern) := by
  rw [parse_eq, parse_eq]
  refine (sparesDuplicates_ofFragment pattern).bind_stricter fun parts hparts => ?_
  have hblock : block? pattern = parts.block := by
    rw [block?, hparts]
    rfl
  rw [hblock]
  refine (stricter_readModifiers parts.block).bind fun modifiers => ?_
  refine (sparesDuplicates_domainList? modifiers parts.domains).bind fun list? => ?_
  exact (sparesDuplicates_readDomains? list?).bind fun domains => trivial

end PageScope

theorem ScriptletCall.sparesDuplicates_parse (call : Fragment) :
    (parse call).SparesDuplicates := by
  rw [parse]
  grind

namespace CosmeticRule

theorem sparesDuplicates_ofFragment (rule : Fragment) :
    (Parts.ofFragment rule).SparesDuplicates := by
  rw [Parts.ofFragment]
  grind

theorem sparesDuplicates_checkCall (marker : Marker) (content : Fragment) :
    (checkCall marker content).SparesDuplicates := by
  rw [checkCall]
  cases callIn? marker content with
  | none => trivial
  | some call => exact (ScriptletCall.sparesDuplicates_parse call).map

/-- The modifier block of a cosmetic rule. -/
def block? (rule : Fragment) : Option Fragment :=
  (Parts.ofFragment rule).toOption.bind fun parts => PageScope.block? parts.pattern

/-- **One cosmetic rule.** -/
theorem stricter_parse (id : RuleId) (rule : Fragment) :
    Reading.Stricter (∃ block ∈ block? rule, ModifierMap.RepeatsKind block)
      (parse .reject id rule) (parse .lastWins id rule) := by
  rw [parse, parse]
  refine (sparesDuplicates_ofFragment rule).bind_stricter fun parts hparts => ?_
  have hblock : block? rule = PageScope.block? parts.pattern := by
    rw [block?, hparts]
    rfl
  rw [hblock]
  refine (PageScope.stricter_parse parts.pattern).bind fun scope => ?_
  exact (sparesDuplicates_checkCall _ _).bind fun _ => trivial

end CosmeticRule

/-! ## Lines -/

namespace Rule

/-- The modifier block of a line, if it holds a rule that has one. -/
def block? (text : Text) : Option Fragment :=
  let line := (Fragment.whole text).trim Text.isWhite
  if line.text.isEmpty || isComment line.text then none
  else if Marker.occursIn line.text then CosmeticRule.block? line
  else (NetworkRule.Parts.ofFragment line).block

/-- A line holds a rule with a block that names the same kind of modifier twice. -/
def RepeatsKind (text : Text) : Prop := ∃ block ∈ block? text, ModifierMap.RepeatsKind block

/-- **One line.** -/
theorem stricter_read (id : RuleId) (text : Text) :
    Reading.Stricter (RepeatsKind text) (read .reject id text) (read .lastWins id text) := by
  rw [RepeatsKind, block?, read, read]
  generalize (Fragment.whole text).trim Text.isWhite = line
  split
  · exact Reading.SparesDuplicates.stricter trivial (by simp)
  · split
    · exact (CosmeticRule.stricter_parse id line).map
    · exact (NetworkRule.stricter_parse id line).map

/-- **The policies differ on duplicates alone.** A line is read alike under both, unless the strict
one refuses it for a duplicate. It does so only if the block of the line repeats a kind, and the
lenient policy never does. The rules that the strict policy reads are those that the lenient one
reads, too, from lines whose block repeats no kind. -/
theorem policies_differ_on_duplicates (id : RuleId) (text : Text) :
    (read .reject id text = read .lastWins id text ∨
      ∃ name span, read .reject id text = .error ⟨.duplicateModifier name, span⟩) ∧
    (∀ name span, read .reject id text = .error ⟨.duplicateModifier name, span⟩ →
      RepeatsKind text) ∧
    (∀ name span, read .lastWins id text ≠ .error ⟨.duplicateModifier name, span⟩) ∧
    ∀ held, read .reject id text = .ok held ↔
      read .lastWins id text = .ok held ∧ ¬ RepeatsKind text := by
  have hstricter := stricter_read id text
  generalize read .reject id text = strict at hstricter ⊢
  generalize read .lastWins id text = lenient at hstricter ⊢
  cases hstricter with
  | agrees hspares hok =>
    refine ⟨.inl rfl, ?_, hspares.ne_refuse, ?_⟩
    · intro name span hrefused
      exact absurd hrefused (hspares.ne_refuse name span)
    · intro held
      exact ⟨fun hheld => ⟨hheld, hok held hheld⟩, And.left⟩
  | refuses hspares hrepeats =>
    refine ⟨.inr ⟨_, _, rfl⟩, fun _ _ _ => hrepeats, hspares.ne_refuse, ?_⟩
    intro held
    refine iff_of_false (fun hheld => nomatch hheld) ?_
    rintro ⟨-, hnone⟩
    exact hnone hrepeats

/-- The same kind by two names, once negated and once in capitals. -/
def styleTwice : Text := " ||a.com^$~css,script,StyleSheet".toList

/-- The strict policy refuses the second name of a kind, and the lenient one does not. -/
theorem policies_differ_on_styleTwice :
    read .reject ⟨1, 0⟩ styleTwice = .error ⟨.duplicateModifier "StyleSheet".toList, ⟨22, 32⟩⟩ ∧
      RepeatsKind styleTwice ∧ (read .lastWins ⟨1, 0⟩ styleTwice).isOk = true := by
  have hread : read .reject ⟨1, 0⟩ styleTwice =
      .error ⟨.duplicateModifier "StyleSheet".toList, ⟨22, 32⟩⟩ := by rfl
  exact ⟨hread, (policies_differ_on_duplicates ⟨1, 0⟩ styleTwice).2.1 _ _ hread, by rfl⟩

end Rule

end ContentFilter
