import ContentFilter.Proofs.Cosmetic.Shift
import ContentFilter.Proofs.Fragment.Placement
import ContentFilter.Proofs.Reading
import ContentFilter.Rule.Reader

/-!
# Calls of rules that are read

The call of a scriptlet is read twice, when its rule is read and when its script is made. The first
reading is of a part of a line and the second of the content that was kept. Both are readings of one
text, so a rule that was accepted makes a call that can be read (`exists_call_of_read`).

A call names a scriptlet, with one exception: `()` is read before any name is looked for, and names
none (`name_eq_nil_iff_of_parse`).
-/

set_option autoImplicit false

namespace ContentFilter

/-- What is no error was not moved. -/
theorem Reading.eq_ok_of_shiftErrors {α : Type} {base : Nat} {x : Reading α} {a : α}
    (h : x.shiftErrors base = .ok a) : x = .ok a := by
  cases x with
  | error e => exact nomatch h
  | ok a' => exact h

namespace ScriptletCall

/-- A call that can be read where it stands can be read by itself. -/
theorem parse_whole {f : Fragment} {call : ScriptletCall} (h : parse f = .ok call) :
    parse (.whole f.text) = .ok call := by
  have hf : f = (Fragment.whole f.text).shift f.offset := Fragment.mk_eq_shift_whole f.offset f.text
  rw [hf, parse_shift] at h
  exact Reading.eq_ok_of_shiftErrors h

/-- A call that is read has no name exactly if it is a pair of brackets with nothing between. -/
theorem name_eq_nil_iff_of_parse {f : Fragment} {call : ScriptletCall} (h : parse f = .ok call) :
    call.name = [] ↔ f.text = ['(', ')'] := by
  rw [parse] at h
  by_cases hempty : f.text = ['(', ')']
  · rw [if_pos hempty] at h
    obtain rfl := Except.ok.inj h
    exact iff_of_true rfl hempty
  · rw [if_neg hempty] at h
    refine iff_of_false (fun hname => ?_) hempty
    split at h
    · cases h
    · cases h
    · split at h
      · cases h
      · rename_i hnonempty
        obtain rfl := Except.ok.inj h
        exact hnonempty (List.isEmpty_iff.mpr hname)

end ScriptletCall

namespace CosmeticRule

/-- A content that passes the check in a rule passes it by itself. -/
theorem checkCall_whole {marker : Marker} {content : Fragment}
    (h : checkCall marker content = .ok ()) : checkCall marker (.whole content.text) = .ok () := by
  have hcontent : content = (Fragment.whole content.text).shift content.offset :=
    Fragment.mk_eq_shift_whole content.offset content.text
  rw [hcontent, checkCall_shift] at h
  exact Reading.eq_ok_of_shiftErrors h

/-- The call of a rule that is read can be read again. -/
theorem exists_call_of_parse {policy : DuplicatePolicy} {id : RuleId} {rule : Fragment}
    {r : CosmeticRule} (h : parse policy id rule = .ok r) {text : Text}
    (hcall : r.call? = some text) : ∃ call, ScriptletCall.parse (.whole text) = .ok call := by
  rw [parse] at h
  obtain ⟨parts, -, h⟩ := Reading.bind_eq_ok_iff.mp h
  obtain ⟨scope, -, h⟩ := Reading.bind_eq_ok_iff.mp h
  obtain ⟨_, hcheck, h⟩ := Reading.bind_eq_ok_iff.mp h
  obtain rfl := Except.ok.inj h
  -- The content was checked where it stands in the line, and is kept without its place.
  obtain ⟨f, hf, rfl⟩ := Option.map_eq_some_iff.mp hcall
  have hwhole := checkCall_whole hcheck
  rw [checkCall] at hwhole
  simp only [hf] at hwhole
  obtain ⟨call, hparse, -⟩ := Reading.map_eq_ok_iff.mp hwhole
  exact ⟨call, ScriptletCall.parse_whole hparse⟩

end CosmeticRule

/-- **What is accepted can be carried out.** The call of a rule that was read from a line can be
read again. -/
theorem Rule.exists_call_of_read {policy : DuplicatePolicy} {id : RuleId} {line : Text}
    {r : CosmeticRule} (h : read policy id line = .ok (some (.cosmetic r))) {text : Text}
    (hcall : r.call? = some text) : ∃ call, ScriptletCall.parse (.whole text) = .ok call := by
  rw [read] at h
  split at h
  · exact nomatch h
  · split at h
    · obtain ⟨r', hparse, hrule⟩ := Reading.map_eq_ok_iff.mp h
      obtain rfl := Rule.cosmetic.inj (Option.some.inj hrule)
      exact CosmeticRule.exists_call_of_parse hparse hcall
    · obtain ⟨r', -, hrule⟩ := Reading.map_eq_ok_iff.mp h
      exact nomatch Option.some.inj hrule

/-- A script rule calls a scriptlet if its content begins with the mark, and the call is what
follows. -/
theorem CosmeticRule.call?_eq_some_iff {r : CosmeticRule} {text : Text} :
    r.call? = some text ↔ r.marker.isScript = true ∧ r.content = scriptletMark ++ text := by
  rw [call?, callIn?]
  by_cases hscript : r.marker.isScript = true
  · rw [if_pos hscript, Option.map_eq_some_iff, and_iff_right hscript]
    constructor
    · rintro ⟨f, hf, rfl⟩
      exact (Fragment.exists_of_strip? hf).1
    · intro hcontent
      refine ⟨⟨0 + Text.byteLength scriptletMark, text⟩, ?_, rfl⟩
      rw [hcontent]
      exact Fragment.strip?_append 0 scriptletMark text
  · rw [if_neg hscript]
    rw [Option.map_none]
    exact iff_of_false (by simp) fun h => hscript h.1

end ContentFilter
