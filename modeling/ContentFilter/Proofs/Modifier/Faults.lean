import ContentFilter.Proofs.Modifier.Admission
import ContentFilter.Proofs.SyntaxError.Evidence

/-!
# Errors in modifier blocks

A block is refused for one of its tokens, and the error points at the whole token. Where a token
ends is a matter of what stands around it (`IsToken`), and that goes back to where the block stands:
it is opened by a sign that no backslash precedes, and it ends with the rule or before a closing
bracket that no backslash precedes (`IsBlock`).

Not all errors about a modifier come up while its token is read. The second of two modifiers is
refused when it is put into the map, and the readers of rules refuse modifiers that they find in it.
So the map keeps what an error needs: every modifier in it is written somewhere in the text
(`Modifier.WrittenIn`), and this is what each token that is read adds to.
-/

set_option autoImplicit false

namespace ContentFilter

variable {text before after : Text}

/-! ## Tokens -/

/-- What stands between `before` and `after` is the inside of a modifier block. -/
structure IsBlock (before inner after : Text) : Prop where
  opened : ∃ front, before = front ++ ['$'] ∧ front.getLast? ≠ some '\\'
  closed : Text.AllWhite after ∨ ∃ s, after = ']' :: s ∧ inner.getLast? ≠ some '\\'

/-- A piece of a block, less the white space around it, is a token. -/
theorem IsBlock.isToken {inner front back lead token tail : Text}
    (h : IsBlock before inner after)
    (hinner : inner = front ++ (lead ++ token ++ tail) ++ back)
    (hpiece : Text.IsPiece ',' front (lead ++ token ++ tail) back)
    (hlead : Text.AllWhite lead) (htail : Text.AllWhite tail) (hne : token ≠ [])
    (hhead : ∀ c, token.head? = some c → Text.isWhite c = false)
    (hlast : ∀ c, token.getLast? = some c → Text.isWhite c = false) :
    IsToken (before ++ front ++ lead) token (tail ++ (back ++ after)) := by
  have hend : (lead ++ token ++ tail).getLast? = (token ++ tail).getLast? := by
    rw [List.append_assoc, List.getLast?_append_of_ne_nil]
    exact List.append_ne_nil_of_left_ne_nil hne tail
  refine ⟨hne, hhead, hlast, ?_, ?_, ?_⟩
  · exact hpiece.guarded.inner (hlead.getLast?_ne (by decide))
  · -- The first piece stands behind the sign that opens the block, any other behind a comma.
    obtain ⟨start, hstart, hbackslash⟩ := h.opened
    rcases hpiece.opened with rfl | ⟨s, rfl, hs⟩
    · exact ⟨start, '$', lead, by rw [hstart]; simp, .inl rfl, hbackslash, hlead⟩
    · refine ⟨before ++ s, ',', lead, by simp, .inr rfl, ?_, hlead⟩
      rw [List.getLast?_append]
      cases hs' : s.getLast? with
      | none => rw [hstart]; simp
      | some d => rwa [hs'] at hs
  · rcases hpiece.closed with rfl | ⟨s, rfl, hs⟩
    · -- The last piece ends with the block, which may end before white space or a bracket.
      rcases h.closed with hwhite | ⟨s, rfl, hs⟩
      · exact ⟨tail ++ after, [], by simp, htail.append hwhite, .inl rfl⟩
      · refine ⟨tail, ']' :: s, by simp, htail, .inr ⟨']', s, rfl, .inr rfl, ?_⟩⟩
        rw [← hend]
        rw [hinner, List.append_nil, List.getLast?_append_of_ne_nil] at hs
        · exact hs
        · simp [hne]
    · refine ⟨tail, ',' :: s ++ after, rfl, htail, .inr ⟨',', s ++ after, rfl, .inl rfl, ?_⟩⟩
      rwa [← hend]

/-- The tokens of a block are whole tokens where they stand. -/
theorem isToken_of_mem_tokens {block token : Fragment} (h : block.StandsIn text before after)
    (hblock : IsBlock before block.text after) (htoken : token ∈ ModifierMap.tokens block) :
    ∃ before' after', token.StandsIn text before' after' ∧
      IsToken before' token.text after' := by
  rw [ModifierMap.tokens, List.mem_filter, List.mem_map] at htoken
  obtain ⟨⟨piece, hpiece, rfl⟩, hne⟩ := htoken
  have hne : (piece.trim Text.isWhite).text ≠ [] := by simpa using hne
  obtain ⟨front, back, hinner, hcut, hstands⟩ := h.cut (by decide) hpiece
  obtain ⟨lead, tail, hsplit, hlead, htail, htrim⟩ := hstands.trim Text.isWhite
  rw [hsplit] at hinner hcut
  refine ⟨_, _, htrim, hblock.isToken hinner hcut hlead htail hne ?_ ?_⟩
  · intro c hc
    exact Text.not_of_head?_trim hc
  · intro c hc
    exact Text.not_of_getLast?_dropTailWhile hc

/-! ## Reading a token -/

namespace Modifier

/-- A modifier is what a whole token says that stands in a text between `before` and `after`. -/
structure WrittenAt (m : Modifier) (text before : Text) (token : Fragment) (after : Text) :
    Prop where
  standsIn : token.StandsIn text before after
  isToken : IsToken before token.text after
  span_eq : m.span = token.span
  names : Names token.text m.negated m.name
  isNamed : m.kind.isNamed m.name = true
  negatable : m.negated = true → m.kind.spec.negatable = true
  value : ∀ list, m.value = some list → list.Within text

/-- A modifier is written somewhere in a text. -/
def WrittenIn (m : Modifier) (text : Text) : Prop :=
  ∃ before token after, m.WrittenAt text before token after

/-- What is refused about a modifier is refused at its token. -/
theorem WrittenIn.sound_refuse {α : Type} {P : α → Prop} {m : Modifier} (h : m.WrittenIn text)
    {cause : Cause}
    (hcause : ∀ before token after, m.WrittenAt text before token after →
      cause.ShownBy before token.text after) :
    Reading.Sound text P (refuse cause m.span) := by
  obtain ⟨before, token, after, hm⟩ := h
  rw [hm.span_eq]
  exact .refuse hm.standsIn (hcause before token after hm)

/-- What a token spells it names. -/
theorem Spells.names {token name : Text} {negated : Bool} {value : Option Text}
    (h : Spells token negated name value) : Names token negated name := by
  obtain ⟨gap, hwritten, hgap⟩ := h.written
  refine ⟨gap, assigned value, hwritten, hgap, ?_⟩
  cases value with
  | none => exact .inl rfl
  | some value => exact .inr rfl

/-- Every fault of a token names the modifier, and the token shows it. -/
theorem Fault.shownBy {ruleKinds : RuleKinds} {token : Text} {cause : Cause}
    (h : Fault ruleKinds token cause) (htoken : IsToken before token after) :
    cause.ShownBy before token after := by
  cases h with
  | unknown hspells _ => exact ⟨htoken, _, hspells.names⟩
  | objection hspells _ hobjects => cases hobjects <;> exact ⟨htoken, _, hspells.names⟩

/-- **One token.** -/
theorem sound_read (ruleKinds : RuleKinds) {token : Fragment}
    (h : token.StandsIn text before after) (htoken : IsToken before token.text after) :
    Reading.Sound text (·.WrittenIn text) (read ruleKinds token) := by
  cases hread : read ruleKinds token with
  | error e =>
    obtain ⟨cause, span⟩ := e
    obtain ⟨hfault, rfl⟩ := fault_of_read hread
    exact .refuse h (hfault.shownBy htoken)
  | ok m =>
    have hm := isRead_of_read hread
    refine ⟨before, token, after, h, htoken, hm.span_eq, hm.spells.names, hm.isNamed, ?_, ?_⟩
    · intro hnegated
      exact (hm.fits.negation hnegated).1
    · intro list hlist
      obtain ⟨lead, hsplit, hafter⟩ := Token.exists_lead_of_value (by rw [hm.parts_eq, hlist])
      rw [hafter]
      exact (h.after_head hsplit).within

end Modifier

/-! ## Reading a block -/

namespace ModifierMap

/-- Every modifier of a map is written somewhere in a text. -/
def WrittenIn (m : ModifierMap) (text : Text) : Prop := ∀ e ∈ m.entries, e.WrittenIn text

theorem writtenIn_empty : ({} : ModifierMap).WrittenIn text := by
  intro e he
  exact nomatch he

/-- An entry of a map is the modifier that was put in last, or was there before. -/
theorem mem_entries_put {m : ModifierMap} {modifier e : Modifier}
    (he : e ∈ (m.put modifier).entries) : e = modifier ∨ e ∈ m.entries := by
  rw [put] at he
  split at he
  · obtain ⟨e', he', rfl⟩ := List.mem_map.mp he
    split
    · exact .inl rfl
    · exact .inr he'
  · rcases List.mem_append.mp he with he | he
    · exact .inr he
    · exact .inl (List.mem_singleton.mp he)

/-- Adding a modifier that is written in a text is sound. -/
theorem WrittenIn.sound_insert {m : ModifierMap} (h : m.WrittenIn text)
    (policy : DuplicatePolicy) {modifier : Modifier} (hmodifier : modifier.WrittenIn text) :
    Reading.Sound text (·.WrittenIn text) (m.insert policy modifier) := by
  rw [insert]
  split
  · refine hmodifier.sound_refuse ?_
    intro before token after hm
    exact ⟨hm.isToken, modifier.negated, hm.names⟩
  · intro e he
    rcases mem_entries_put he with rfl | he
    · exact hmodifier
    · exact h e he

/-- Reading tokens that stand in a text is sound. -/
theorem WrittenIn.sound_readTokens {m : ModifierMap} (h : m.WrittenIn text)
    (ruleKinds : RuleKinds) (policy : DuplicatePolicy) {tokens : List Fragment}
    (htokens : ∀ token ∈ tokens, ∃ before after, token.StandsIn text before after ∧
      IsToken before token.text after) :
    Reading.Sound text (·.WrittenIn text) (readTokens ruleKinds policy m tokens) := by
  induction tokens generalizing m with
  | nil => exact h
  | cons token tokens ih =>
    obtain ⟨before, after, hstands, htoken⟩ := htokens token List.mem_cons_self
    rw [readTokens]
    refine (Modifier.sound_read ruleKinds hstands htoken).bind fun modifier hmodifier => ?_
    refine (h.sound_insert policy hmodifier).bind fun extended hextended => ?_
    exact ih hextended fun t ht => htokens t (List.mem_cons_of_mem _ ht)

/-- **One block.** It is refused for one of its tokens, and what it is read into is written in the
text. -/
theorem sound_parse (ruleKinds : RuleKinds) (policy : DuplicatePolicy) {block : Fragment}
    (h : block.StandsIn text before after) (hblock : IsBlock before block.text after) :
    Reading.Sound text (·.WrittenIn text) (parse ruleKinds policy block) := by
  apply writtenIn_empty.sound_readTokens
  intro token htoken
  exact isToken_of_mem_tokens h hblock htoken

/-- What is looked up in a map is written in the text, and of the kind that was looked for. -/
theorem WrittenIn.get? {m : ModifierMap} (h : m.WrittenIn text) {kind : ModifierKind}
    {modifier : Modifier} (hget : m.get? kind = some modifier) :
    modifier.WrittenIn text ∧ modifier.kind = kind := by
  have hkind := List.find?_some hget
  exact ⟨h modifier (List.mem_of_find?_eq_some hget), by simpa using hkind⟩

end ModifierMap

end ContentFilter
