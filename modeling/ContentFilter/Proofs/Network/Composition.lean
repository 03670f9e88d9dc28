import ContentFilter.Network.Reader
import ContentFilter.Proofs.Modifier.Grammar

/-!
# Composing network rules

A network rule is a mark, a pattern, a `$` and a modifier block, and the reader has to find the
`$` again. Two things can mislead it. A `$` inside the block would be taken for the opening, so
every `$` there must be guarded; and the opening itself must not be escaped, so the pattern must
not end in a backslash. Neither is a restriction in practice, since a `$` in a value is written
`\$`.

The third thing is a pattern that is a regular expression. It stands between slashes, and a `$`
in it may stand for itself, as in `/banner$/`: no block follows there, for nothing behind the `$`
could be the name of a modifier (`HoldsModifier`). Such a pattern keeps its `$`. If a body stands
between slashes and holds a modifier all the same, as a rule does whose last value is a regular
expression itself, then `parse_written` says nothing: a block may stand there, and
`parse_of_slashes` records that the reader does not look for one.
-/

set_option autoImplicit false

namespace ContentFilter.NetworkRule

/-! ## The effects of a block

`applyAll` goes through the modifiers and the rule at once. Since an effect depends on the
modifier and on the kind of the rule only, and the kind never changes, the effects can be had
first and added afterwards. -/

/-- The effects of modifiers, each had on its own, or the first of their errors. -/
def effects (allowlist : Bool) (modifiers : List Modifier) : Reading (List Modifier.Effect) :=
  modifiers.mapM (Modifier.effect allowlist)

/-- No effect touches identity, text or pattern of a rule, nor what kind of rule it is. -/
theorem foldl_add_frame (r : NetworkRule) (es : List Modifier.Effect) :
    (es.foldl add r).id = r.id ∧ (es.foldl add r).text = r.text ∧
      (es.foldl add r).pattern = r.pattern ∧ (es.foldl add r).allowlist = r.allowlist := by
  induction es generalizing r with
  | nil => exact ⟨rfl, rfl, rfl, rfl⟩
  | cons e es ih => exact ih (r.add e)

/-- A rule has an option if it had it before or the effect sets it. -/
theorem has_add (r : NetworkRule) (e : Modifier.Effect) (o : RuleOption) :
    (r.add e).has o = (r.has o || e.options.contains o) := FlagSet.contains_union _ _ _

/-- Applying modifiers is having their effects and adding these in order. -/
theorem applyAll_eq_effects (r : NetworkRule) (modifiers : List Modifier) :
    r.applyAll modifiers = (effects r.allowlist modifiers).map (·.foldl add r) := by
  -- The rule grows as modifiers are applied, but stays of its kind.
  induction modifiers generalizing r with
  | nil => rfl
  | cons modifier modifiers ih =>
    rw [applyAll, apply, effects, List.mapM_cons]
    cases hfirst : modifier.effect r.allowlist with
    | error e => rfl
    | ok e =>
      show (r.add e).applyAll modifiers = _
      rw [ih, effects, show (r.add e).allowlist = r.allowlist from rfl]
      cases modifiers.mapM (Modifier.effect r.allowlist) <;> rfl

/-! ## Finding the opening again -/

/-- A rule as it is written. -/
def written (mark pattern block : Text) : Text := mark ++ pattern ++ blockOpening :: block

/-- Whether a rule makes an exception, by its mark. -/
def isException (mark : Text) : Bool := mark == allowlistMark

/-- What is to be known of a mark, a pattern and a block for the rule written with them to be
unambiguous: the mark is one, and neither what stands before the opening nor what stands behind
it could be taken for something else. -/
structure Composable (mark pattern block : Text) : Prop where
  marked : mark = [] ∨ mark = allowlistMark
  /-- Without a mark, the pattern does not begin like one. -/
  unmarked : mark = [] → ¬ allowlistMark <+: pattern
  /-- The opening is not escaped. -/
  opening : pattern.getLast? ≠ some '\\'
  /-- In the block every `$` is. -/
  guarded : Text.Guarded blockOpening block

/-- A body is between slashes if its pattern begins with one and its block ends with one. -/
theorem isBetweenSlashes_iff {pattern block : Text} :
    isBetweenSlashes (pattern ++ blockOpening :: block) = true ↔
      pattern.head? = some '/' ∧ block.getLast? = some '/' := by
  have hopening : blockOpening ≠ '/' := by decide
  cases pattern with
  | nil => simp [isBetweenSlashes, blockOpening]
  | cons c pattern =>
    by_cases hc : c = '/'
    · subst hc
      rw [List.cons_append, isBetweenSlashes, List.getLast?_append, List.getLast?_cons]
      cases block.getLast? <;> simp [hopening]
    · simp [isBetweenSlashes, hc]

/-- What a rule has behind its mark is the same with a mark and without one. -/
theorem Parts.ofFragment_written_eq_ofBody {mark pattern block : Text}
    (h : Composable mark pattern block) :
    ofFragment (.whole (written mark pattern block)) =
      ofBody (isException mark) ⟨Text.byteLength mark, pattern ++ blockOpening :: block⟩ := by
  rcases h.marked with hmark | hmark
  · have hstart : ¬ allowlistMark <+: written mark pattern block := by
      intro hprefix
      apply h.unmarked hmark
      rw [written, hmark, List.nil_append] at hprefix
      -- The mark has two characters, and neither is the opening.
      rcases pattern with _ | ⟨c, _ | ⟨d, pattern⟩⟩
      · simp [allowlistMark, blockOpening] at hprefix
      · simp [allowlistMark, blockOpening] at hprefix
      · simpa [allowlistMark] using hprefix
    rw [ofFragment, Fragment.strip?_eq_none hstart, hmark]
    rfl
  · rw [ofFragment, written, Fragment.whole, hmark, List.append_assoc, Fragment.strip?_append,
      Nat.zero_add]
    rfl

/-- **The parts.** The mark, the pattern and the block are found again, unless the body stands
between slashes; then it is all pattern. -/
theorem Parts.ofFragment_written {mark pattern block : Text}
    (h : Composable mark pattern block) :
    ofFragment (.whole (written mark pattern block)) =
      if pattern.head? = some '/' ∧ block.getLast? = some '/' then
        ⟨isException mark, pattern ++ blockOpening :: block, none⟩
      else ⟨isException mark, pattern, some ⟨Text.byteLength (mark ++ pattern) + 1, block⟩⟩ := by
  rw [ofFragment_written_eq_ofBody h, ofBody]
  by_cases hslashes : pattern.head? = some '/' ∧ block.getLast? = some '/'
  · rw [if_pos (isBetweenSlashes_iff.mpr hslashes), if_pos hslashes]
  · have hbody : ¬ isBetweenSlashes (pattern ++ blockOpening :: block) = true := fun hb =>
      hslashes (isBetweenSlashes_iff.mp hb)
    have hsplit := Text.splitLast?_unescaped_append (by decide) h.opening h.guarded
    rw [if_neg hbody, if_neg hslashes, Fragment.splitLast?, hsplit]
    simp [Fragment.around, Fragment.after, Nat.add_assoc, blockOpening]
    decide

/-! ## Texts without a modifier -/

/-- What a modifier could be called, whether the registry has it or not: letters, digits,
hyphens and underscores. -/
def IsModifierName (name : Text) : Prop :=
  name ≠ [] ∧ ∀ c ∈ name, c.isAlphanum = true ∨ c = '-' ∨ c = '_'

/-- A text holds a modifier if one of the tokens of which a block would be made has a name that a
modifier could have. -/
def HoldsModifier (text : Text) : Prop :=
  ∃ tokens, ModifierMap.FallsIntoTokens (.whole text) tokens ∧
    ∃ token ∈ tokens, ∃ negated name value,
      Modifier.Spells token.text negated name value ∧ IsModifierName name

/-- A character that is one of those in lower case is one of them. -/
theorem isAlphanum_of_toLower {c : Char}
    (h : c.toLower.isAlphanum = true ∨ c.toLower = '-' ∨ c.toLower = '_') :
    c.isAlphanum = true ∨ c = '-' ∨ c = '_' := by
  by_cases hupper : c.isUpper = true
  · left
    show ((c.isUpper || c.isLower) || c.isDigit) = true
    rw [hupper, Bool.true_or, Bool.true_or]
  · have hlower : c.toLower = c := dif_neg fun hrange => hupper (decide_eq_true hrange)
    rwa [hlower] at h

/-- The registry has no names but such. -/
theorem isModifierName_of_isNamed {kind : ModifierKind} {name : Text}
    (h : kind.isNamed name = true) : IsModifierName name := by
  have hall : (ModifierKind.every.flatMap (·.spec.names)).all (fun name =>
      !name.isEmpty && name.all fun c => c.isAlphanum || c == '-' || c == '_') = true := by decide
  have hmem : Text.foldCase name ∈ ModifierKind.every.flatMap (·.spec.names) :=
    List.mem_flatMap_of_mem (ModifierKind.mem_every kind) (ModifierKind.isNamed_iff.mp h)
  obtain ⟨hne, hchars⟩ := Bool.and_eq_true_iff.mp (List.all_eq_true.mp hall _ hmem)
  refine ⟨by simpa using hne, fun c hc => isAlphanum_of_toLower ?_⟩
  simpa [or_assoc] using List.all_eq_true.mp hchars _ (List.mem_map_of_mem hc)

/-- What holds no modifier is no block, unless it is all white space and commas. -/
theorem parse_of_not_holdsModifier (ruleKinds : RuleKinds) (policy : DuplicatePolicy) (base : Nat)
    {text : Text} {c : Char} (h : ¬ HoldsModifier text) (hc : c ∈ text)
    (hwhite : Text.isWhite c = false) (hcomma : c ≠ ',') :
    ∃ e, ModifierMap.parse ruleKinds policy ⟨base, text⟩ = .error e := by
  have hne : ModifierMap.tokens (.whole text) ≠ [] := ModifierMap.tokens_ne_nil hc hwhite hcomma
  obtain ⟨token, rest, htokens⟩ := List.exists_cons_of_ne_nil hne
  rw [ModifierMap.parse, Fragment.mk_eq_shift_whole, ModifierMap.tokens_shift, htokens,
    List.map_cons, ModifierMap.readTokens]
  cases hread : Modifier.read ruleKinds (token.shift base) with
  | error e => exact ⟨e, rfl⟩
  | ok m =>
    have hm := Modifier.isRead_of_read hread
    have htoken : token ∈ ModifierMap.tokens (.whole text) := htokens ▸ List.mem_cons_self
    exact absurd ⟨_, ModifierMap.fallsIntoTokens_iff.mpr rfl, token, htoken, _, _, _, hm.spells,
      isModifierName_of_isNamed hm.isNamed⟩ h

/-- The slash that closes a regular expression is no modifier. -/
theorem not_holdsModifier_slash : ¬ HoldsModifier "/".toList := by
  rintro ⟨tokens, htokens, token, htoken, negated, name, value, hspells, -, hname⟩
  obtain rfl := ModifierMap.fallsIntoTokens_iff.mp htokens
  obtain rfl : token = ⟨0, "/".toList⟩ := List.mem_singleton.mp htoken
  obtain ⟨-, rfl, -⟩ := hspells.unique (Modifier.spells_ofFragment ⟨0, "/".toList⟩)
  exact absurd (hname '/' (by decide)) (by decide)

/-! ## The rule -/

/-- The rule that a mark, a pattern and a block make: the modifiers of the block are read for
the kind of rule that the mark makes it, a pattern is demanded unless they confine the rule to
domains, and their effects are added to the rule that has only the pattern. -/
def compose (policy : DuplicatePolicy) (id : RuleId) (mark pattern block : Text) :
    Reading NetworkRule := do
  let text := written mark pattern block
  let modifiers ← ModifierMap.parse (ruleKinds (isException mark)) policy
    ⟨Text.byteLength (mark ++ pattern) + 1, block⟩
  if pattern = [] ∧ modifiers.contains .domain = false then
    refuse .emptyPattern ⟨0, Text.byteLength text⟩
  else
    let es ← effects (isException mark) modifiers.entries
    return es.foldl add (bare id text pattern (isException mark))

/-- A composed rule has the identity, the text, the pattern and the mark that it was composed of. -/
theorem compose_frame {policy : DuplicatePolicy} {id : RuleId} {mark pattern block : Text}
    {r : NetworkRule} (h : compose policy id mark pattern block = .ok r) :
    r.id = id ∧ r.text = written mark pattern block ∧ r.pattern = pattern ∧
      r.allowlist = isException mark := by
  obtain ⟨modifiers, -, h⟩ := Reading.bind_eq_ok_iff.mp h
  split at h
  · cases h
  · obtain ⟨es, -, h⟩ := Reading.bind_eq_ok_iff.mp h
    obtain rfl := Except.ok.inj h
    exact foldl_add_frame _ es

/-- Where no modifier stands in it, the block makes no rule. -/
theorem compose_of_not_holdsModifier (policy : DuplicatePolicy) (id : RuleId)
    (mark pattern : Text) {block : Text} {c : Char} (h : ¬ HoldsModifier block) (hc : c ∈ block)
    (hwhite : Text.isWhite c = false) (hcomma : c ≠ ',') :
    ∃ e, compose policy id mark pattern block = .error e := by
  obtain ⟨e, he⟩ := parse_of_not_holdsModifier (ruleKinds (isException mark)) policy
    (Text.byteLength (mark ++ pattern) + 1) h hc hwhite hcomma
  refine ⟨e, ?_⟩
  rw [compose, he]
  rfl

/-- A rule that does not begin and end with a slash is read as what its parts compose. -/
theorem parse_of_not_slashes (policy : DuplicatePolicy) (id : RuleId)
    {mark pattern block : Text} (h : Composable mark pattern block)
    (hslashes : ¬ (pattern.head? = some '/' ∧ block.getLast? = some '/')) :
    parse policy id (.whole (written mark pattern block)) =
      compose policy id mark pattern block := by
  rw [parse, Parts.ofFragment_written h, if_neg hslashes, compose]
  simp only []
  cases ModifierMap.parse (ruleKinds (isException mark)) policy
    ⟨Text.byteLength (mark ++ pattern) + 1, block⟩ with
  | error e => rfl
  | ok modifiers =>
    show (if (pattern.isEmpty && !modifiers.contains .domain) = true then _ else _)
      = (if pattern = [] ∧ modifiers.contains .domain = false then _ else _)
    have hcondition : (pattern.isEmpty && !modifiers.contains .domain) = true ↔
        pattern = [] ∧ modifiers.contains .domain = false := by simp
    by_cases hempty : pattern = [] ∧ modifiers.contains .domain = false
    · rw [if_pos (hcondition.mpr hempty), if_pos hempty, Fragment.span, Fragment.stop]
      simp [Fragment.whole]
    · rw [if_neg (mt hcondition.mp hempty), if_neg hempty, applyAll_eq_effects]
      show (effects (isException mark) _).map _ = _
      cases effects (isException mark) modifiers.entries <;> rfl

/-- The reader takes a body between slashes whole and does not look for a block in it. -/
theorem parse_of_slashes (policy : DuplicatePolicy) (id : RuleId)
    {mark pattern block : Text} (h : Composable mark pattern block)
    (hslashes : pattern.head? = some '/' ∧ block.getLast? = some '/') :
    parse policy id (.whole (written mark pattern block)) =
      .ok (bare id (written mark pattern block) (pattern ++ blockOpening :: block)
        (isException mark)) := by
  rw [parse, Parts.ofFragment_written h, if_pos hslashes]
  have hne : (pattern ++ blockOpening :: block).isEmpty = false := by simp
  simp only [hne, Bool.false_and, Bool.false_eq_true, if_false]
  rfl

/-- **The rule.** Reading what was written with a mark, a pattern and a block gives the rule
that these make, with this pattern and of this kind, or their error. The one exception is a
pattern between slashes without a block: where no modifier stands behind the last `$`, so that
no block could be read there, the whole body is the pattern. -/
theorem parse_written (policy : DuplicatePolicy) (id : RuleId) {mark pattern block : Text}
    (h : Composable mark pattern block) :
    (¬ (pattern.head? = some '/' ∧ block.getLast? = some '/') →
      parse policy id (.whole (written mark pattern block)) =
        compose policy id mark pattern block ∧
      ∀ r, parse policy id (.whole (written mark pattern block)) = .ok r →
        r.id = id ∧ r.text = written mark pattern block ∧ r.pattern = pattern ∧
          r.allowlist = isException mark) ∧
    (pattern.head? = some '/' ∧ block.getLast? = some '/' → ¬ HoldsModifier block →
      (∃ e, compose policy id mark pattern block = .error e) ∧
      parse policy id (.whole (written mark pattern block)) =
        .ok (bare id (written mark pattern block) (pattern ++ blockOpening :: block)
          (isException mark))) := by
  constructor
  · intro hslashes
    have hparse := parse_of_not_slashes policy id h hslashes
    refine ⟨hparse, fun r hr => ?_⟩
    rw [hparse] at hr
    exact compose_frame hr
  · intro hslashes hnone
    have hslash : '/' ∈ block := List.mem_of_getLast? hslashes.2
    exact ⟨compose_of_not_holdsModifier policy id mark pattern hnone hslash (by decide) (by decide),
      parse_of_slashes policy id h hslashes⟩

/-- An exception with a guarded `$` in its block, and a regular expression that ends in `$`. -/
theorem parse_written_guarded_dollar :
    Composable allowlistMark "||a.com^".toList "replace=x\\$y".toList ∧
      (parse .lastWins ⟨1, 0⟩ (.whole "@@||a.com^$replace=x\\$y".toList)).map
        (fun r => (r.pattern, r.allowlist, r.advanced)) =
          .ok ("||a.com^".toList, true, some "x\\$y".toList) ∧
      Composable [] "/banner".toList "/".toList ∧ ¬ HoldsModifier "/".toList ∧
        parse .lastWins ⟨1, 0⟩ (.whole "/banner$/".toList) =
          .ok (bare ⟨1, 0⟩ "/banner$/".toList "/banner$/".toList false) := by
  have h : Composable allowlistMark "||a.com^".toList "replace=x\\$y".toList :=
    ⟨by decide, by decide, by decide, by decide⟩
  have hregex : Composable [] "/banner".toList "/".toList :=
    ⟨by decide, by decide, by decide, by decide⟩
  have hwritten : "@@||a.com^$replace=x\\$y".toList =
      written allowlistMark "||a.com^".toList "replace=x\\$y".toList := by decide
  have hnone := not_holdsModifier_slash
  refine ⟨h, ?_, hregex, hnone, ((parse_written .lastWins ⟨1, 0⟩ hregex).2 (by decide) hnone).2⟩
  rw [hwritten, ((parse_written .lastWins ⟨1, 0⟩ h).1 (by decide)).1]
  rfl

/-- In a pattern between slashes what stands behind the last `$` need not be a block. -/
theorem parse_written_slashes_ne_compose :
    ¬ ∀ (policy : DuplicatePolicy) (id : RuleId) (mark pattern block : Text),
      Composable mark pattern block →
        parse policy id (.whole (written mark pattern block)) =
          compose policy id mark pattern block := by
  intro h
  have hcomposable : Composable [] "/banner".toList "/".toList :=
    ⟨by decide, by decide, by decide, by decide⟩
  have hparse := h .lastWins ⟨1, 0⟩ _ _ _ hcomposable
  rw [parse_of_slashes .lastWins ⟨1, 0⟩ hcomposable (by decide)] at hparse
  exact nomatch hparse

end ContentFilter.NetworkRule
