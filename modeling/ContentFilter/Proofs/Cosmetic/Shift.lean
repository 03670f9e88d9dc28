import ContentFilter.Cosmetic.Reader
import ContentFilter.Proofs.Cosmetic.PageScope
import ContentFilter.Proofs.Modifier.Shift
import ContentFilter.Proofs.ValueList.Shift

/-!
# Cosmetic rules that move

What a cosmetic rule is does not say where it stood, and so only the errors of its readers move.
On the way to it positions matter all the same: the block and the domain list are handed on with
their offsets, and the list of a domain modifier has the offset that its value was given when the
block was read. A scriptlet call is scanned with the offset of each character as an argument.
-/

set_option autoImplicit false

namespace ContentFilter

variable (base : Nat)

/-! ## The page scope -/

namespace PageScope

/-- The parts, moved right by `base` bytes. -/
def Parts.shift (parts : Parts) : Parts :=
  ⟨parts.block.map (Fragment.shift base), parts.domains.shift base⟩

/-- Moving what stands before a marker moves its parts. -/
theorem Parts.ofFragment_shift (pattern : Fragment) :
    ofFragment (pattern.shift base) = (ofFragment pattern).shift base (shift base) := by
  rw [ofFragment, ofFragment, Fragment.strip?_shift, Fragment.span_shift]
  cases pattern.strip? blockOpening with
  | none => rfl
  | some opened =>
    simp only [Option.map_some, Fragment.splitFirst?_shift]
    cases opened.splitFirst? blockClosing with
    | none => rfl
    | some parts =>
      obtain ⟨block, domains⟩ := parts
      rw [Reading.shift_ite]
      rfl

/-- Moving the block moves its modifiers. -/
theorem readModifiers_shift (policy : DuplicatePolicy) (block : Option Fragment) :
    readModifiers policy (block.map (Fragment.shift base)) =
      (readModifiers policy block).shift base (ModifierMap.shift base) := by
  cases block with
  | none => rfl
  | some block =>
    rw [Option.map_some, readModifiers_some, readModifiers_some, ModifierMap.parse_shift]

/-- Moving what stands before a marker moves the list in force. -/
theorem domainList?_shift (modifiers : ModifierMap) (domains : Fragment) :
    domainList? (modifiers.shift base) (domains.shift base) =
      (domainList? modifiers domains).shift base (Option.map (Prod.map (Fragment.shift base) id)) := by
  rw [domainList?, domainList?, ModifierMap.get?_shift, Fragment.text_shift]
  cases modifiers.get? .domain with
  | none =>
    simp only [Option.map_none]
    split <;> rfl
  | some modifier =>
    obtain ⟨kind, name, value, negated, span⟩ := modifier
    simp only [Option.map_some, Modifier.shift]
    split
    · cases value <;> rfl
    · rfl

/-- Moving a list of domains moves its errors, and changes nothing in the domains. -/
theorem readDomains_shift (list : Fragment) (separator : Separator) :
    readDomains (list.shift base) separator = (readDomains list separator).shiftErrors base := by
  rw [readDomains, readDomains, Fragment.text_shift, ValueList.parse_shift]
  split
  · rfl
  · refine Reading.shift_bind base fun items => ?_
    -- A scope holds the values of the items and not where they stood.
    have hscope : ValueList.scope (items.map (ListItem.shift base)) = ValueList.scope items := by
      rw [ValueList.scope, ValueList.scope, List.filter_map, List.filter_map, List.map_map,
        List.map_map]
      rfl
    rw [hscope]
    rfl

/-- The same where there may be no list. -/
theorem readDomains?_shift (list? : Option (Fragment × Separator)) :
    readDomains? (list?.map (Prod.map (Fragment.shift base) id)) =
      (readDomains? list?).shiftErrors base := by
  cases list? with
  | none => rfl
  | some list => exact readDomains_shift base list.1 list.2

/-- A page scope does not say where it was written. -/
theorem ofParts_shift (block : Option Fragment) (modifiers : ModifierMap) (domains : Scope) :
    ofParts (block.map (Fragment.shift base)) (modifiers.shift base) domains =
      ofParts block modifiers domains := by
  rw [ofParts, ofParts, ModifierMap.value?_shift, ModifierMap.value?_shift, Option.map_map]
  rfl

/-- **One page scope.** -/
theorem parse_shift (policy : DuplicatePolicy) (pattern : Fragment) :
    parse policy (pattern.shift base) = (parse policy pattern).shiftErrors base := by
  rw [parse_eq, parse_eq, Parts.ofFragment_shift]
  refine Reading.shift_bind base fun parts => ?_
  simp only [Parts.shift, readModifiers_shift]
  refine Reading.shift_bind base fun modifiers => ?_
  rw [domainList?_shift]
  refine Reading.shift_bind base fun list? => ?_
  rw [readDomains?_shift]
  refine Reading.shift_bind base fun domains => ?_
  rw [ofParts_shift]
  rfl

end PageScope

/-! ## Scriptlet calls -/

namespace ScriptletCall

/-- The failure of a scan, moved right by `base` bytes. -/
def Failure.shift : Failure → Failure
  | unclosed => unclosed
  | unexpected offset c => unexpected (offset + base) c

/-- The span of a failed scan moves with the call. -/
theorem Failure.span_shift (call : Fragment) (failure : Failure) :
    (failure.shift base).span (call.shift base) = (failure.span call).shift base := by
  cases failure with
  | unclosed => exact Fragment.span_shift base call
  | unexpected offset c => exact congrArg (Span.mk _) (Nat.add_right_comm _ _ _)

/-- A scan that starts further to the right fails further to the right. -/
theorem scan_add (state : State) (parts : List Text) (offset : Nat) (t : Text) :
    scan state parts (offset + base) t =
      (scan state parts offset t).mapError (Failure.shift base) := by
  fun_induction scan state parts offset t with
  | case1 => rfl
  | case2 parts offset c rest hend => rw [scan, if_pos hend]; rfl
  | case3 parts offset c rest hend hquote ih =>
    rw [scan, if_neg hend, if_pos hquote, Nat.add_right_comm, ih]
  | case4 parts offset c rest hend hquote hfiller ih =>
    rw [scan, if_neg hend, if_neg hquote, if_pos hfiller, Nat.add_right_comm, ih]
  | case5 parts offset c rest hend hquote hfiller =>
    rw [scan, if_neg hend, if_neg hquote, if_neg hfiller]
    rfl
  | case6 quote previous body parts offset c rest hclose ih =>
    rw [scan, if_pos hclose, Nat.add_right_comm, ih]
  | case7 quote previous body parts offset c rest hclose ih =>
    rw [scan, if_neg hclose, Nat.add_right_comm, ih]

/-- **One call.** -/
theorem parse_shift (call : Fragment) :
    parse (call.shift base) = (parse call).shiftErrors base := by
  rw [parse, parse, Fragment.text_shift, Fragment.offset_shift, scan_add]
  split
  · rfl
  · cases scan .between [] call.offset call.text with
    | error failure =>
      simp only [Except.mapError, Failure.span_shift]
      rfl
    | ok parts =>
      cases parts with
      | nil =>
        simp only [Except.mapError, Fragment.span_shift]
        rfl
      | cons name args =>
        simp only [Except.mapError, Fragment.span_shift]
        split <;> rfl

end ScriptletCall

/-! ## The rule -/

namespace CosmeticRule

/-- The parts, moved right by `base` bytes. -/
def Parts.shift (parts : Parts) : Parts :=
  ⟨parts.pattern.shift base, parts.marker, parts.content.shift base⟩

/-- Moving a rule moves its parts. -/
theorem Parts.ofFragment_shift (rule : Fragment) :
    ofFragment (rule.shift base) = (ofFragment rule).shift base (shift base) := by
  rw [ofFragment, ofFragment, Fragment.text_shift, Fragment.span_shift]
  cases Marker.split? rule.text with
  | none => rfl
  | some split =>
    obtain ⟨before, marker, rest⟩ := split
    simp only [Fragment.after_shift, Fragment.trim_shift, Fragment.span_shift]
    rw [Reading.shift_ite]
    rfl

/-- The check of a call moves with the content. -/
theorem checkCall_shift (marker : Marker) (content : Fragment) :
    checkCall marker (content.shift base) = (checkCall marker content).shiftErrors base := by
  have hcall : callIn? marker (content.shift base) =
      (callIn? marker content).map (Fragment.shift base) := by
    rw [callIn?, callIn?, Fragment.strip?_shift]
    split <;> rfl
  rw [checkCall, checkCall, hcall]
  cases callIn? marker content with
  | none => rfl
  | some call =>
    simp only [Option.map_some, ScriptletCall.parse_shift]
    exact Reading.shift_map base fun _ => rfl

/-- **One cosmetic rule.** -/
theorem parse_shift (policy : DuplicatePolicy) (id : RuleId) (rule : Fragment) :
    parse policy id (rule.shift base) = (parse policy id rule).shiftErrors base := by
  rw [parse, parse, Parts.ofFragment_shift]
  refine Reading.shift_bind base fun parts => ?_
  simp only [Parts.shift, PageScope.parse_shift]
  refine Reading.shift_bind base fun scope => ?_
  rw [checkCall_shift]
  exact Reading.shift_bind base fun _ => rfl

end CosmeticRule

end ContentFilter
