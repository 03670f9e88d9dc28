import ContentFilter.Proofs.Fragment.Cutting
import ContentFilter.Proofs.Modifier.Map
import ContentFilter.Proofs.Modifier.Shift
import ContentFilter.Proofs.Modifier.Validity

/-!
# The grammar of modifier blocks

A block is its tokens (`ModifierMap.FallsIntoTokens`). Where a modifier that is given twice replaces
the earlier one, nothing is asked of a block but that its tokens are valid, and the first token that
is not decides what is wrong.

What is read remembers which token it comes from, and where that token and the value in it stand
(`Modifier.Occurs`). On the way into the map, the entry of a kind keeps the place of the first
modifier of that kind and is replaced by each later one, so the name, the value and the spans of an
entry are those of the last token (`ModifierMap.Merges`).
-/

set_option autoImplicit false

namespace ContentFilter

/-! ## Tokens -/

namespace Modifier

/-- A modifier that is read from a token of a block at `base`: it is what the token spells, its span
cuts the token out of the block, and the span of its value, if it has one, the value. -/
structure Occurs (base : Nat) (block : Text) (token : Fragment) (m : Modifier) : Prop where
  spells : Spells token.text m.negated m.name (m.value.map (·.text))
  isNamed : m.kind.isNamed m.name = true
  span_eq : m.span = token.span
  placed : ∃ before after, block = before ++ token.text ++ after ∧
    m.span =
      (Span.mk (Text.byteLength before) (Text.byteLength (before ++ token.text))).shift base ∧
    ∀ value, m.value = some value → ∃ lead, token.text = lead ++ value.text ∧
      value.span = (Span.mk (Text.byteLength (before ++ lead))
        (Text.byteLength (before ++ lead ++ value.text))).shift base

variable {ruleKinds : RuleKinds} {base : Nat} {block : Text}

/-- A modifier occurs where its token stands. -/
theorem occurs_of_read {before after : Text} {token : Fragment} {m : Modifier}
    (h : token.StandsIn block before after) (hm : read ruleKinds (token.shift base) = .ok m) :
    Occurs base block (token.shift base) m := by
  have hread := isRead_of_read hm
  refine ⟨hread.spells, hread.isNamed, hread.span_eq, before, after, h.text_eq, ?_, ?_⟩
  · rw [hread.span_eq, Fragment.span_shift, h.span_eq]
    rfl
  · intro value hvalue
    -- Taking a token apart commutes with moving it, so the value is a moved one as well.
    have hmoved : ((Token.ofFragment token).shift base).value = m.value := by
      rw [← Token.ofFragment_shift, hread.parts_eq]
    rw [hvalue, Token.shift, Option.map_eq_some_iff] at hmoved
    obtain ⟨unmoved, hunmoved, rfl⟩ := hmoved
    obtain ⟨lead, hsplit, hafter⟩ := Token.exists_lead_of_value hunmoved
    have hstands := h.after_head hsplit
    rw [← hafter] at hstands
    refine ⟨lead, hsplit, ?_⟩
    rw [Fragment.span_shift, hstands.span_eq]
    rfl

end Modifier

/-! ## Blocks -/

namespace ModifierMap

/-- What is left of pieces without the white space around them, as far as anything is. -/
inductive Leaves : List Fragment → List Fragment → Prop
  | nil : Leaves [] []
  | blank {piece : Fragment} {pieces tokens : List Fragment} (hblank : Text.AllWhite piece.text)
      (hrest : Leaves pieces tokens) : Leaves (piece :: pieces) tokens
  | token {piece token : Fragment} {pieces tokens : List Fragment}
      (htrims : Fragment.Trims Text.isWhite piece token) (hne : token.text ≠ [])
      (hrest : Leaves pieces tokens) : Leaves (piece :: pieces) (token :: tokens)

/-- The tokens of a block are what is left of its pieces at the commas that no backslash directly
precedes. -/
def FallsIntoTokens (block : Fragment) (tokens : List Fragment) : Prop :=
  ∃ pieces, Fragment.FallsInto ',' block pieces ∧ Leaves pieces tokens

/-- The entries to which modifiers come that are put into a map one after the other: one for each
kind, in the order in which the kinds first occur, and each the last of its kind. -/
structure Merges (ms entries : List Modifier) : Prop where
  kinds : entries.map (·.kind) = (ms.map (·.kind)).eraseDups
  last : ∀ e ∈ entries, ∃ before after, ms = before ++ e :: after ∧ ∀ m ∈ after, m.kind ≠ e.kind

/-- What is left of pieces is what trimming leaves of them, the blank ones dropped. -/
theorem leaves_iff {pieces tokens : List Fragment} : Leaves pieces tokens ↔
    tokens = (pieces.map (·.trim Text.isWhite)).filter (!·.text.isEmpty) := by
  constructor
  · intro h
    induction h with
    | nil => rfl
    | @blank piece pieces tokens hblank _ ih =>
      have htrim : (piece.trim Text.isWhite).text = [] := Text.trim_of_white hblank
      rw [List.map_cons, List.filter_cons_of_neg (by simp [htrim]), ih]
    | @token piece token pieces tokens htrims hne _ ih =>
      rw [List.map_cons, htrims.trim_eq hne, List.filter_cons_of_pos (by simpa using hne), ih]
  · rintro rfl
    induction pieces with
    | nil => exact .nil
    | cons piece pieces ih =>
      have htrims := Fragment.trims_trim Text.isWhite piece
      rw [List.map_cons]
      by_cases hne : (piece.trim Text.isWhite).text = []
      · rw [List.filter_cons_of_neg (by simp [hne])]
        obtain ⟨lead, tail, hsplit, hlead, htail, -⟩ := htrims.split
        refine .blank ?_ ih
        rw [hsplit, hne, List.append_nil]
        exact Text.AllWhite.append hlead htail
      · rw [List.filter_cons_of_pos (by simpa using hne)]
        exact .token htrims hne ih

/-- A block falls into its tokens, and into nothing else. -/
theorem fallsIntoTokens_iff {block : Fragment} {tokens' : List Fragment} :
    FallsIntoTokens block tokens' ↔ tokens' = tokens block := by
  constructor
  · rintro ⟨pieces, hpieces, hleaves⟩
    rw [leaves_iff.mp hleaves, (Fragment.fallsInto_iff (by decide)).mp hpieces, tokens]
  · rintro rfl
    exact ⟨block.cut ',', (Fragment.fallsInto_iff (by decide)).mpr rfl, leaves_iff.mpr rfl⟩

/-- A piece that is not blank leaves something. -/
theorem Leaves.ne_nil {pieces tokens : List Fragment} (h : Leaves pieces tokens)
    {piece : Fragment} (hpiece : piece ∈ pieces) (hblank : ¬ Text.AllWhite piece.text) :
    tokens ≠ [] := by
  induction h with
  | nil => exact nomatch hpiece
  | blank hwhite _ ih =>
    rcases List.mem_cons.mp hpiece with rfl | hpiece
    · exact absurd hwhite hblank
    · exact ih hpiece
  | token => exact List.cons_ne_nil _ _

/-- A block that is more than white space and commas has a token. -/
theorem tokens_ne_nil {block : Fragment} {c : Char} (hc : c ∈ block.text)
    (hwhite : Text.isWhite c = false) (hcomma : c ≠ ',') : tokens block ≠ [] := by
  obtain ⟨pieces, hpieces, hleaves⟩ := fallsIntoTokens_iff.mpr (rfl : tokens block = _)
  obtain ⟨piece, hpiece, hmem⟩ := hpieces.exists_piece hc hcomma
  refine hleaves.ne_nil hpiece fun hblank => ?_
  exact Bool.false_ne_true (hwhite.symm.trans (hblank c hmem))

/-- Putting modifiers into a map merges them. -/
theorem merges_ofModifiers (ms : List Modifier) : Merges ms (ofModifiers ms).entries := by
  rw [entries_ofModifiers]
  refine ⟨map_kind_filterMap_last? ms, fun e he => ?_⟩
  obtain ⟨kind, -, hlast⟩ := List.mem_filterMap.mp he
  obtain ⟨rfl, hsplit⟩ := last?_eq_some_iff.mp hlast
  exact hsplit

/-- A token of a block that is part of a larger text is a token of the block by itself, moved. -/
theorem exists_standsIn_of_mem_tokens {base : Nat} {text : Text} {token : Fragment}
    (h : token ∈ tokens ⟨base, text⟩) :
    ∃ (unmoved : Fragment) (before after : Text),
      token = unmoved.shift base ∧ unmoved.StandsIn text before after := by
  rw [Fragment.mk_eq_shift_whole, tokens_shift, List.mem_map] at h
  obtain ⟨unmoved, hmem, rfl⟩ := h
  rw [tokens, List.mem_filter, List.mem_map] at hmem
  obtain ⟨⟨piece, hpiece, rfl⟩, -⟩ := hmem
  obtain ⟨front, back, -, -, hstands⟩ := (Fragment.standsIn_whole text).cut (by decide) hpiece
  obtain ⟨lead, tail, -, -, -, htrim⟩ := hstands.trim Text.isWhite
  exact ⟨_, _, _, rfl, htrim⟩

/-- **The grammar.** With the last of several modifiers of one kind to win, a block is accepted
exactly if its tokens are valid. Otherwise it is refused for the one fault of the first token that
is not, and the error points at that token. What is accepted comes to one entry for each kind, in
the order in which the kinds first occur, and each entry is read from the last token of its kind. -/
theorem parse_by_tokens (ruleKinds : RuleKinds) {base : Nat} {text : Text}
    {tokens : List Fragment} (h : FallsIntoTokens ⟨base, text⟩ tokens) :
    ((∃ map, parse ruleKinds .lastWins ⟨base, text⟩ = .ok map) ↔
      ∀ token ∈ tokens, Modifier.IsValid ruleKinds token.text) ∧
    (∀ front token back, tokens = front ++ token :: back →
      (∀ t ∈ front, Modifier.IsValid ruleKinds t.text) →
        ¬ Modifier.IsValid ruleKinds token.text →
          ∃ cause, parse ruleKinds .lastWins ⟨base, text⟩ = .error ⟨cause, token.span⟩ ∧
            ∀ cause', Modifier.Fault ruleKinds token.text cause' ↔ cause' = cause) ∧
    ∀ map, parse ruleKinds .lastWins ⟨base, text⟩ = .ok map →
      ∃ ms, List.Forall₂ (Modifier.Occurs base text) tokens ms ∧ Merges ms map.entries := by
  obtain rfl := fallsIntoTokens_iff.mp h
  rw [parse_lastWins]
  refine ⟨?_, ?_, ?_⟩
  · simp only [Modifier.isValid_iff]
    rw [← Reading.exists_mapM_eq_ok_iff]
    simp only [Reading.map_eq_ok_iff]
    constructor
    · rintro ⟨map, ms, hms, -⟩
      exact ⟨ms, hms⟩
    · rintro ⟨ms, hms⟩
      exact ⟨_, ms, hms, rfl⟩
  · intro front token back hsplit hfront htoken
    obtain ⟨cause, hread, hcause⟩ := Modifier.exists_fault_of_not_isValid htoken
    refine ⟨cause, ?_, hcause⟩
    rw [hsplit, Reading.mapM_eq_error (fun t ht => Modifier.isValid_iff.mp (hfront t ht)) hread]
    rfl
  · intro map hmap
    obtain ⟨ms, hms, rfl⟩ := Reading.map_eq_ok_iff.mp hmap
    refine ⟨ms, ?_, merges_ofModifiers ms⟩
    -- Where a token stands is known of the tokens of the block only, so it goes into the relation
    -- between tokens and modifiers before that is weakened.
    have hplaced : ∀ token ∈ tokens ⟨base, text⟩,
        ∃ (unmoved : Fragment) (before after : Text),
          token = unmoved.shift base ∧ unmoved.StandsIn text before after :=
      fun token htoken => exists_standsIn_of_mem_tokens htoken
    have hread := (List.forall₂_and_left _ _).mpr ⟨hplaced, Reading.mapM_eq_ok_iff.mp hms⟩
    refine hread.imp ?_
    rintro _ m ⟨⟨unmoved, before, after, rfl, hstands⟩, hm⟩
    exact Modifier.occurs_of_read hstands hm

/-- A block in which a modifier occurs twice, with an escaped comma in the first value. -/
def repeatedBlock : Text := "domain=ä\\,b , ~Image,,\u3000domain=c".toList

/-- The tokens of that block behind seven bytes. -/
def repeatedTokens : List Fragment :=
  [⟨7, "domain=ä\\,b".toList⟩, ⟨22, "~Image".toList⟩, ⟨33, "domain=c".toList⟩]

/-- A block with a value that is too much and, behind it, a name that nothing is registered for. -/
def faultyBlock : Text := "script, important=1,~~ä".toList

/-- The tokens of that block behind seven bytes. -/
def faultyTokens : List Fragment :=
  [⟨7, "script".toList⟩, ⟨15, "important=1".toList⟩, ⟨27, "~~ä".toList⟩]

/-- The entry for the domain keeps the first place and is read from the last token. In the other
block the value is what is wrong. -/
theorem parse_by_tokens_repeatedBlock :
    (FallsIntoTokens ⟨7, repeatedBlock⟩ repeatedTokens ∧
      ∃ map, parse .network .lastWins ⟨7, repeatedBlock⟩ = .ok map ∧
        map.entries.map (·.span) = [⟨33, 41⟩, ⟨22, 28⟩] ∧
        ∃ ms, List.Forall₂ (Modifier.Occurs 7 repeatedBlock) repeatedTokens ms ∧
          Merges ms map.entries) ∧
      FallsIntoTokens ⟨7, faultyBlock⟩ faultyTokens ∧
      parse .network .lastWins ⟨7, faultyBlock⟩ =
        .error ⟨.modifierValueForbidden "important".toList, ⟨15, 26⟩⟩ := by
  have hrepeated : FallsIntoTokens ⟨7, repeatedBlock⟩ repeatedTokens :=
    fallsIntoTokens_iff.mpr (by rfl)
  have hfaulty : FallsIntoTokens ⟨7, faultyBlock⟩ faultyTokens :=
    fallsIntoTokens_iff.mpr (by rfl)
  refine ⟨⟨hrepeated, ?_⟩, hfaulty, ?_⟩
  · obtain ⟨hvalid, -, hread⟩ := parse_by_tokens .network hrepeated
    have hmap : parse .network .lastWins ⟨7, repeatedBlock⟩ =
        .ok ⟨[⟨.domain, "domain".toList, some ⟨40, ['c']⟩, false, ⟨33, 41⟩⟩,
          ⟨.requestType .image, "Image".toList, none, true, ⟨22, 28⟩⟩]⟩ := by decide
    exact ⟨_, hmap, rfl, hread _ hmap⟩
  · have hfront : ∀ t ∈ [(⟨7, "script".toList⟩ : Fragment)],
        Modifier.IsValid .network t.text := by
      intro t ht
      rw [List.mem_singleton.mp ht]
      exact Modifier.isValid_iff.mpr ⟨_, rfl⟩
    have hspells : Modifier.Spells "important=1".toList false "important".toList (some ['1']) :=
      ⟨⟨[], rfl, by simp [Text.AllWhite]⟩, fun _ => by decide, by decide, by
        intro c hc
        obtain rfl := Option.some.inj hc
        rfl⟩
    have hname : ModifierKind.important.isNamed "important".toList = true := by decide
    have hfault : Modifier.Fault .network "important=1".toList
        (.modifierValueForbidden "important".toList) :=
      .objection hspells hname (.valueForbidden (by decide) (by decide) rfl (by decide))
    obtain ⟨cause, herror, hcause⟩ := (parse_by_tokens .network hfaulty).2.1
      [⟨7, "script".toList⟩] ⟨15, "important=1".toList⟩ [⟨27, "~~ä".toList⟩] rfl hfront
      (fun hvalid => hvalid.not_fault hfault)
    rw [herror, ← (hcause _).mp hfault]
    rfl

end ModifierMap

end ContentFilter
