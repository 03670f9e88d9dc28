import ContentFilter.Cosmetic.Reader
import ContentFilter.Proofs.Cosmetic.Marker
import ContentFilter.Proofs.Cosmetic.PageScope
import ContentFilter.Proofs.Modifier.Faults
import ContentFilter.Proofs.Script.CallGrammar
import ContentFilter.Proofs.ValueList.Faults

/-!
# Errors in cosmetic rules

A cosmetic rule is read by four readers below one another: the marker is found, what stands before
it is taken apart into a block and a domain list, these are read, and a scriptlet call behind the
marker is scanned. What each of them is handed stands in the text, since it was cut out of what the
reader above was handed, and for the call and for the block more is known: a call stands behind its
mark and reaches to the end of the rule, and a block stands between its brackets.
-/

set_option autoImplicit false

namespace ContentFilter

variable {text before after : Text}

/-! ## The page scope -/

namespace PageScope

/-- The parts of what stands before a marker, each where it belongs. -/
structure Parts.PlacedIn (parts : Parts) (text : Text) : Prop where
  inside : ∀ block, parts.block = some block →
    ∃ before after, block.StandsIn text before after ∧ IsBlock before block.text after
  domains : parts.domains.Within text

/-- What stands before a marker is taken apart soundly: its parts stand where they belong, and a
block is refused only if it is never closed. -/
theorem sound_ofFragment {pattern : Fragment} (h : pattern.StandsIn text before after) :
    Reading.Sound text (·.PlacedIn text) (Parts.ofFragment pattern) := by
  rw [Parts.ofFragment]
  cases hopened : pattern.strip? blockOpening with
  | none => exact ⟨fun block hblock => (nomatch hblock), h.within⟩
  | some opened =>
    obtain ⟨hpattern, hstands⟩ := h.strip? hopened
    dsimp only
    cases hsplit : opened.splitFirst? blockClosing with
    | none =>
      refine .refuse h ⟨opened.text, hpattern, ?_⟩
      have hunbroken := Text.unbroken_of_splitFirst? (Option.map_eq_none_iff.mp hsplit)
      exact Text.guarded_iff_unbroken.mpr hunbroken
    | some parts =>
      obtain ⟨block, domains⟩ := parts
      obtain ⟨hparts, hlast, hblock, hdomains⟩ := hstands.splitFirst? hsplit
      show Reading.Sound text _ (if _ then _ else _)
      split
      · rename_i hempty
        have hnil : block.text = [] := List.isEmpty_iff.mp hempty
        rw [hnil, List.nil_append] at hparts
        have hshown : pattern.text = "[$]".toList ++ domains.text := by
          rw [hpattern, hparts]
          rfl
        have hspan : (⟨pattern.offset, domains.offset⟩ : Span)
            = (⟨pattern.offset, "[$]".toList⟩ : Fragment).span := by
          rw [Fragment.span, Fragment.stop, hdomains.offset_eq, h.offset_eq, hnil]
          simp only [Text.byteLength_append, Span.mk.injEq, true_and, Nat.add_assoc]
          rfl
        rw [hspan]
        exact .refuse (h.head hshown) rfl
      · refine ⟨fun inside hinside => ?_, hdomains.within⟩
        obtain rfl := Option.some.inj hinside
        have hopening : before ++ blockOpening = before ++ ['['] ++ ['$'] := by
          rw [List.append_assoc]
          rfl
        exact ⟨_, _, hblock, ⟨before ++ ['['], hopening, by simp⟩, .inr ⟨_, rfl, hlast⟩⟩

/-- The modifiers of a block before a marker are read soundly. -/
theorem Parts.PlacedIn.sound_readModifiers {parts : Parts} (h : parts.PlacedIn text)
    (policy : DuplicatePolicy) :
    Reading.Sound text (·.WrittenIn text) (readModifiers policy parts.block) := by
  cases hblock : parts.block with
  | none => exact ModifierMap.writtenIn_empty
  | some block =>
    obtain ⟨before, after, hstands, hinside⟩ := h.inside block hblock
    rw [readModifiers_some]
    exact ModifierMap.sound_parse .cosmetic policy hstands hinside

/-- The domain list in force stands in the text, wherever it comes from. -/
theorem sound_domainList? {modifiers : ModifierMap} (hmodifiers : modifiers.WrittenIn text)
    {domains : Fragment} (hdomains : domains.Within text) :
    Reading.Sound text (fun list? => ∀ list, list? = some list → list.1.Within text)
      (domainList? modifiers domains) := by
  rw [domainList?]
  cases hget : modifiers.get? .domain with
  | none =>
    intro list hlist
    split at hlist
    · exact nomatch hlist
    · rw [← Option.some.inj hlist]
      exact hdomains
  | some modifier =>
    obtain ⟨hwritten, hkind⟩ := hmodifiers.get? hget
    show Reading.Sound text _ (if _ then _ else _)
    split
    · intro list hlist
      obtain ⟨value, hvalue, rfl⟩ := Option.map_eq_some_iff.mp hlist
      obtain ⟨before, token, after, hm⟩ := hwritten
      exact hm.value value hvalue
    · refine hwritten.sound_refuse ?_
      intro before token after hm
      obtain ⟨gap, rest, htoken, -, -⟩ := hm.names
      -- A modifier that cannot be negated begins with its name.
      have hplain : modifier.negated = false := by
        have hnegatable := hm.negatable
        rw [hkind] at hnegatable
        simpa using mt hnegatable Bool.false_ne_true
      have hname : Text.foldCase modifier.name = "domain".toList := by
        have hisNamed := hm.isNamed
        rw [hkind] at hisNamed
        simpa [ModifierKind.isNamed, ModifierKind.spec, ModifierSpec.valued] using hisNamed
      refine ⟨hm.isToken, modifier.name, gap ++ rest, ?_, hname⟩
      rw [htoken, hplain]
      simp

/-- The domains in force are read soundly. -/
theorem sound_readDomains? {list? : Option (Fragment × Separator)}
    (h : ∀ list, list? = some list → list.1.Within text) :
    Reading.Sound text (fun _ => True) (readDomains? list?) := by
  cases list? with
  | none => trivial
  | some list =>
    obtain ⟨before, after, hlist⟩ := h list rfl
    rw [readDomains?, readDomains]
    split
    · trivial
    · exact (ValueList.sound_parse hlist).bind fun _ _ => trivial

/-- The page scope is read soundly. -/
theorem sound_parse (policy : DuplicatePolicy) {pattern : Fragment}
    (h : pattern.StandsIn text before after) :
    Reading.Sound text (fun _ => True) (parse policy pattern) := by
  rw [parse_eq]
  refine (sound_ofFragment h).bind fun parts hparts => ?_
  refine (hparts.sound_readModifiers policy).bind fun modifiers hmodifiers => ?_
  refine (sound_domainList? hmodifiers hparts.domains).bind fun list? hlist => ?_
  exact (sound_readDomains? hlist).bind fun _ _ => trivial

end PageScope

/-! ## Scriptlet calls -/

namespace ScriptletCall

/-- A call that stands behind its mark and reaches to the end of a rule. -/
structure PlacedIn (call : Fragment) (text before after : Text) : Prop where
  standsIn : call.StandsIn text before after
  opened : ∃ marker : Marker, ∃ head gap,
    before = head ++ marker.text ++ gap ++ CosmeticRule.scriptletMark ∧
    marker.isScript = true ∧ Text.AllWhite gap
  closed : Text.AllWhite after

section PlacedIn

variable {call : Fragment} (h : PlacedIn call text before after)

include h

/-- What is shown of a call lies within it. -/
theorem PlacedIn.inCall {front shown back : Text} (hcall : call.text = front ++ shown ++ back) :
    InCall call.text (before ++ front) shown (back ++ after) := by
  obtain ⟨marker, head, gap, hbefore, hscript, hgap⟩ := h.opened
  refine ⟨marker, front, back, gap, head, after, hcall, ?_, hscript, hgap, rfl, h.closed⟩
  rw [hbefore]

/-- A call lies within itself. -/
theorem PlacedIn.inCall_self : InCall call.text before call.text after := by
  have hcall : call.text = [] ++ call.text ++ [] := by simp
  have hin := h.inCall hcall
  rwa [List.append_nil] at hin

/-- **One call.** -/
theorem PlacedIn.sound_parse : Reading.Sound text (fun _ => True) (parse call) := by
  rw [parse]
  split
  · trivial
  · cases hscan : scan .between [] call.offset call.text with
    | error failure =>
      cases failure with
      | unclosed => exact .refuse h.standsIn h.inCall_self
      | unexpected place c =>
        obtain ⟨front, ⟨-, back, hcall, -⟩, hplace⟩ := straysAt_of_scan hscan
        have hparts : call.text = front ++ [c] ++ back := by rw [hcall]; simp
        have hspan : (Failure.unexpected place c).span call
            = (⟨call.offset + Text.byteLength front, [c]⟩ : Fragment).span := by
          rw [hplace]
          rfl
        show Reading.Sound text _ (refuse _ ((Failure.unexpected place c).span call))
        rw [hspan]
        exact .refuse (h.standsIn.part hparts) (h.inCall hparts)
    | ok parts =>
      cases parts with
      | nil => exact .refuse h.standsIn h.inCall_self
      | cons name args =>
        show Reading.Sound text _ (if _ then _ else _)
        split
        · exact .refuse h.standsIn h.inCall_self
        · trivial

end PlacedIn

end ScriptletCall

/-! ## The rule -/

namespace CosmeticRule

/-- The parts of a rule, each where it belongs. -/
structure Parts.PlacedIn (parts : Parts) (text : Text) : Prop where
  pattern : parts.pattern.Within text
  content : ∃ head gap after,
    parts.content.StandsIn text (head ++ parts.marker.text ++ gap) after ∧
    Text.AllWhite gap ∧ Text.AllWhite after

/-- A rule with a marker is taken apart soundly: a missing content is refused behind the marker. -/
theorem sound_ofFragment {rule : Fragment} (h : rule.StandsIn text before after)
    (hafter : Text.AllWhite after) (hmarker : Marker.occursIn rule.text = true) :
    Reading.Sound text (·.PlacedIn text) (Parts.ofFragment rule) := by
  obtain ⟨⟨front, marker, rest⟩, hsplit⟩ := Option.isSome_iff_exists.mp hmarker
  have hrule : rule.text = front ++ marker.text ++ rest := Marker.eq_of_split? hsplit
  have hfollowing := h.after_head hrule
  obtain ⟨lead, tail, hrest, hlead, htail, hcontent⟩ := hfollowing.trim Text.isWhite
  rw [Parts.ofFragment, hsplit]
  show Reading.Sound text _ (if _ then _ else _)
  split
  · rename_i hempty
    refine .refuse hfollowing ⟨?_, marker, before ++ front, (List.append_assoc _ _ _).symm⟩
    rw [hrest, List.isEmpty_iff.mp hempty, List.append_nil]
    exact Text.AllWhite.append hlead htail
  · refine ⟨?_, before ++ front, lead, tail ++ after, ?_, hlead, .append htail hafter⟩
    · have hpattern : rule.text = front ++ (marker.text ++ rest) := by
        rw [hrule, List.append_assoc]
      exact (h.head hpattern).within
    · rwa [List.append_assoc before]

/-- The check of a scriptlet call is sound. -/
theorem sound_checkCall {parts : Parts} (h : parts.PlacedIn text) :
    Reading.Sound text (fun _ => True) (checkCall parts.marker parts.content) := by
  obtain ⟨head, gap, after, hcontent, hgap, hafter⟩ := h.content
  rw [checkCall, callIn?]
  by_cases hscript : parts.marker.isScript = true
  · rw [if_pos hscript]
    cases hcall : parts.content.strip? scriptletMark with
    | none => trivial
    | some call =>
      obtain ⟨-, hstands⟩ := hcontent.strip? hcall
      have hplaced : ScriptletCall.PlacedIn call text _ after :=
        ⟨hstands, ⟨parts.marker, head, gap, rfl, hscript, hgap⟩, hafter⟩
      exact hplaced.sound_parse.map fun _ _ => trivial
  · rw [if_neg hscript]
    trivial

/-- **One cosmetic rule.** -/
theorem sound_parse (policy : DuplicatePolicy) (id : RuleId) {rule : Fragment}
    (h : rule.StandsIn text before after) (hafter : Text.AllWhite after)
    (hmarker : Marker.occursIn rule.text = true) :
    Reading.Sound text (fun _ => True) (parse policy id rule) := by
  rw [parse]
  refine (sound_ofFragment h hafter hmarker).bind fun parts hparts => ?_
  obtain ⟨front, back, hpattern⟩ := hparts.pattern
  refine (PageScope.sound_parse policy hpattern).bind fun scope _ => ?_
  exact (sound_checkCall hparts).bind fun _ _ => trivial

end CosmeticRule

end ContentFilter
