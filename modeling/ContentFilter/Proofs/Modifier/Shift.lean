import ContentFilter.Modifier.Reader
import ContentFilter.Proofs.Fragment.Shift

/-!
# Modifier blocks that move

A modifier remembers where its token stood and where its value did, and both move with the block
that it was read from. What it is does not: the name, the kind, what the registry objects to and
what becomes of a duplicate are the same wherever the block stands.
-/

set_option autoImplicit false

namespace ContentFilter

variable (base : Nat)

namespace Modifier

/-- The parts of a token, moved right by `base` bytes. -/
def Token.shift (token : Token) : Token :=
  { token with value := token.value.map (Fragment.shift base) }

/-- Moving a token moves its parts. -/
theorem Token.ofFragment_shift (token : Fragment) :
    ofFragment (token.shift base) = (ofFragment token).shift base := by
  rw [ofFragment, ofFragment, Fragment.strip?_shift]
  cases token.strip? [negationMarker] with
  | none =>
    simp only [Option.map_none, Fragment.text_shift, Fragment.after_shift]
    split <;> rfl
  | some body =>
    simp only [Option.map_some, Fragment.text_shift, Fragment.after_shift]
    split <;> rfl

/-- What is to be said against a token does not depend on its place. -/
theorem objection?_shift (kind : ModifierKind) (ruleKinds : RuleKinds) (token : Token) :
    objection? kind ruleKinds (token.shift base) = objection? kind ruleKinds token := by
  obtain ⟨negated, name, value⟩ := token
  cases value with
  | none => rfl
  | some value =>
    rw [objection?, objection?]
    simp only [Token.shift, Option.map_some]
    cases kind.spec.value <;> rfl

/-- **One token.** -/
theorem read_shift (ruleKinds : RuleKinds) (token : Fragment) :
    read ruleKinds (token.shift base) = (read ruleKinds token).shift base (Modifier.shift base) := by
  rw [read, read, Token.ofFragment_shift, Fragment.span_shift]
  generalize Token.ofFragment token = parts
  have hname : (parts.shift base).name = parts.name := rfl
  rw [hname]
  cases ModifierKind.named? parts.name with
  | none => rfl
  | some kind =>
    simp only [objection?_shift]
    cases objection? kind ruleKinds parts <;> rfl

end Modifier

namespace ModifierMap

/-- The modifiers, moved right by `base` bytes. -/
def shift (m : ModifierMap) : ModifierMap := ⟨m.entries.map (Modifier.shift base)⟩

theorem get?_shift (m : ModifierMap) (kind : ModifierKind) :
    (m.shift base).get? kind = (m.get? kind).map (Modifier.shift base) := by
  rw [get?, get?, shift, List.find?_map]
  rfl

theorem value?_shift (m : ModifierMap) (kind : ModifierKind) :
    (m.shift base).value? kind = m.value? kind := by
  rw [value?, value?, get?_shift]
  cases m.get? kind with
  | none => rfl
  | some modifier =>
    obtain ⟨kind, name, value, negated, span⟩ := modifier
    cases value <;> rfl

theorem contains_shift (m : ModifierMap) (kind : ModifierKind) :
    (m.shift base).contains kind = m.contains kind := by
  rw [contains, contains, get?_shift, Option.isSome_map]

theorem put_shift (m : ModifierMap) (modifier : Modifier) :
    (m.shift base).put (modifier.shift base) = (m.put modifier).shift base := by
  have hkind : (modifier.shift base).kind = modifier.kind := rfl
  rw [put, put, hkind, contains_shift]
  split
  · rw [shift, shift, ModifierMap.mk.injEq, List.map_map, List.map_map]
    refine List.map_congr_left fun e _ => ?_
    have hentry : (e.shift base).kind = e.kind := rfl
    simp only [Function.comp_apply, hentry]
    split <;> rfl
  · rw [shift, shift, List.map_append]
    rfl

/-- Moving commutes with adding a modifier, under either policy. -/
theorem insert_shift (policy : DuplicatePolicy) (m : ModifierMap) (modifier : Modifier) :
    (m.shift base).insert policy (modifier.shift base) =
      (m.insert policy modifier).shift base (shift base) := by
  have hkind : (modifier.shift base).kind = modifier.kind := rfl
  rw [insert, insert, hkind, contains_shift, put_shift]
  split <;> rfl

/-- Moving the tokens moves the modifiers read from them. -/
theorem readTokens_shift (ruleKinds : RuleKinds) (policy : DuplicatePolicy) (m : ModifierMap)
    (tokens : List Fragment) :
    readTokens ruleKinds policy (m.shift base) (tokens.map (Fragment.shift base)) =
      (readTokens ruleKinds policy m tokens).shift base (shift base) := by
  induction tokens generalizing m with
  | nil => rfl
  | cons token tokens ih =>
    rw [List.map_cons, readTokens, readTokens, Modifier.read_shift]
    refine Reading.shift_bind base fun modifier => ?_
    rw [insert_shift]
    exact Reading.shift_bind base fun extended => ih extended

/-- Moving a block moves its tokens. -/
theorem tokens_shift (block : Fragment) :
    tokens (block.shift base) = (tokens block).map (Fragment.shift base) := by
  rw [tokens, tokens, Fragment.cut_shift, List.map_map, List.filter_map, List.filter_map,
    List.map_map]
  have htrim : (fun piece : Fragment => piece.trim Text.isWhite) ∘ Fragment.shift base =
      Fragment.shift base ∘ fun piece => piece.trim Text.isWhite :=
    funext fun piece => Fragment.trim_shift base piece Text.isWhite
  rw [htrim]
  rfl

/-- **One block.** -/
theorem parse_shift (ruleKinds : RuleKinds) (policy : DuplicatePolicy) (block : Fragment) :
    parse ruleKinds policy (block.shift base) =
      (parse ruleKinds policy block).shift base (shift base) := by
  rw [parse, parse, tokens_shift]
  exact readTokens_shift base ruleKinds policy {} _

end ModifierMap

end ContentFilter
