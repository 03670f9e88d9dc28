import ContentFilter.Proofs.Modifier.Map
import ContentFilter.Proofs.Modifier.Validity
import Mathlib.Data.List.Nodup

/-!
# Duplicates under either policy

The policy on duplicates is looked at in one place, where a modifier is put into the map. Up to the
first duplicate two readings of a block under the two policies hold the same map, so they are one
reading. At the first duplicate the strict one ends, and the lenient one goes on with another map
and may still be refused, for something else.

`Reading.Stricter` is this relation between the two. It holds of a sequence of readers if one of
them is in this relation and none of the others ever refuses for a duplicate. What a strict reading
knows of the tokens that it has passed is that their kinds are those of the map (`Covers`), so a
modifier is found in the map exactly if an earlier token names its kind.
-/

set_option autoImplicit false

namespace ContentFilter

/-! ## A strict reading and a lenient one -/

/-- Whether a duplicate is what is wrong. -/
@[grind] def Cause.isDuplicate : Cause → Bool
  | .duplicateModifier _ => true
  | _ => false

namespace Reading

variable {α β : Type}

/-- Whatever is wrong, it is not a duplicate. -/
def SparesDuplicates : Reading α → Prop
  | .ok _ => True
  | .error e => e.cause.isDuplicate = false

/-- The strict one of two readings is the lenient one, or it is refused for a duplicate, and then
something is repeated. Nothing is if it has a result, and the lenient one never finds a
duplicate. -/
inductive Stricter (repeats : Prop) : Reading α → Reading α → Prop
  | agrees {x : Reading α} (hspares : x.SparesDuplicates)
      (hok : ∀ a, x = .ok a → ¬ repeats) : Stricter repeats x x
  | refuses {name : Text} {span : Span} {lenient : Reading α}
      (hspares : lenient.SparesDuplicates) (hrepeats : repeats) :
      Stricter repeats (refuse (.duplicateModifier name) span) lenient

variable {x strict lenient : Reading α} {repeats : Prop}

@[grind =] theorem sparesDuplicates_ok (a : α) : SparesDuplicates (.ok a) ↔ True := Iff.rfl

@[grind =] theorem sparesDuplicates_refuse (cause : Cause) (span : Span) :
    SparesDuplicates (refuse cause span : Reading α) ↔ cause.isDuplicate = false := Iff.rfl

/-- Computing on with a result brings in no duplicates. -/
theorem SparesDuplicates.map {f : α → β} (h : x.SparesDuplicates) :
    SparesDuplicates (x.map f) := by
  cases x with
  | ok a => trivial
  | error e => exact h

/-- Two readings that find no duplicates find none one after the other. -/
theorem SparesDuplicates.bind {f : α → Reading β} (h : x.SparesDuplicates)
    (hf : ∀ a, (f a).SparesDuplicates) : SparesDuplicates (x >>= f) := by
  cases x with
  | ok a => exact hf a
  | error e => exact h

/-- A reading that finds no duplicates is not refused for one. -/
theorem SparesDuplicates.ne_refuse (h : x.SparesDuplicates) (name : Text) (span : Span) :
    x ≠ .error ⟨.duplicateModifier name, span⟩ := by
  rintro rfl
  exact nomatch h

/-- Where nothing is repeated, a reader that spares duplicates agrees with itself. -/
theorem SparesDuplicates.stricter (h : x.SparesDuplicates) (hnone : ¬ repeats) :
    Stricter repeats x x :=
  .agrees h fun _ _ => hnone

/-- What comes before goes through both readings, or ends both. -/
theorem SparesDuplicates.bind_stricter {f g : α → Reading β} (h : x.SparesDuplicates)
    (hfg : ∀ a, x = .ok a → Stricter repeats (f a) (g a)) :
    Stricter repeats (x >>= f) (x >>= g) := by
  cases x with
  | ok a => exact hfg a rfl
  | error e => exact .agrees h fun b hb => (nomatch hb)

/-- What comes after is the same in both readings, since they hold the same if both go on. -/
theorem Stricter.bind {f : α → Reading β} (h : Stricter repeats strict lenient)
    (hf : ∀ a, (f a).SparesDuplicates) :
    Stricter repeats (strict >>= f) (lenient >>= f) := by
  cases h with
  | agrees hspares hok =>
    refine .agrees (hspares.bind hf) fun b hb => ?_
    obtain ⟨a, ha, -⟩ := bind_eq_ok_iff.mp hb
    exact hok a ha
  | refuses hspares hrepeats => exact .refuses (hspares.bind hf) hrepeats

/-- Computing on with a result keeps one reading stricter than the other. -/
theorem Stricter.map {f : α → β} (h : Stricter repeats strict lenient) :
    Stricter repeats (strict.map f) (lenient.map f) := by
  cases h with
  | agrees hspares hok =>
    refine .agrees hspares.map fun b hb => ?_
    obtain ⟨a, ha, -⟩ := map_eq_ok_iff.mp hb
    exact hok a ha
  | refuses hspares hrepeats => exact .refuses hspares.map hrepeats

end Reading

/-! ## Tokens and their kinds -/

namespace Modifier

/-- The kind that a token names, if it names one. Which of its names is used, in which case, whether
it is negated and what value it has do not matter. -/
def kindNamed? (token : Fragment) : Option ModifierKind :=
  ModifierKind.named? (Token.ofFragment token).name

variable {ruleKinds : RuleKinds} {token : Fragment}

/-- The kind of a modifier is the one that its token names. -/
theorem kindNamed?_of_read {m : Modifier} (h : read ruleKinds token = .ok m) :
    kindNamed? token = some m.kind := by
  have hread := isRead_of_read h
  rw [kindNamed?, hread.parts_eq]
  exact ModifierKind.named?_eq_some_iff.mpr hread.isNamed

/-- A token on its own is never at fault for a duplicate. -/
theorem Fault.isDuplicate_eq_false {token : Text} {cause : Cause}
    (h : Fault ruleKinds token cause) : cause.isDuplicate = false := by
  cases h with
  | unknown _ _ => rfl
  | objection _ _ hobjects => cases hobjects <;> rfl

/-- A token is read without a view to the others. -/
theorem sparesDuplicates_read (ruleKinds : RuleKinds) (token : Fragment) :
    (read ruleKinds token).SparesDuplicates := by
  cases hread : read ruleKinds token with
  | ok m => trivial
  | error e => exact (fault_of_read hread).1.isDuplicate_eq_false

end Modifier

namespace ModifierMap

/-- The kinds that tokens name, in their order. -/
def kindsNamed (tokens : List Fragment) : List ModifierKind :=
  tokens.filterMap Modifier.kindNamed?

/-- Two tokens of a block name the same kind. -/
def RepeatsKind (block : Fragment) : Prop := ¬ (kindsNamed (tokens block)).Nodup

instance (block : Fragment) : Decidable (RepeatsKind block) := instDecidableNot

section Kinds

variable {ruleKinds : RuleKinds} {token : Fragment} {modifier : Modifier}
  (hread : Modifier.read ruleKinds token = .ok modifier)

include hread

/-- A token that is read names one kind more. -/
theorem kindsNamed_concat (passed : List Fragment) :
    kindsNamed (passed ++ [token]) = kindsNamed passed ++ [modifier.kind] := by
  rw [kindsNamed, List.filterMap_append, List.filterMap_cons, Modifier.kindNamed?_of_read hread]
  rfl

/-- No kind is named twice, with a token more, if none was before and this one is new. -/
theorem nodup_kindsNamed_concat {passed : List Fragment} :
    (kindsNamed (passed ++ [token])).Nodup ↔
      modifier.kind ∉ kindsNamed passed ∧ (kindsNamed passed).Nodup := by
  rw [kindsNamed_concat hread, ← List.concat_eq_append, List.nodup_concat]

end Kinds

/-- The kinds that tokens name are the kinds of the modifiers read from them. -/
theorem kindsNamed_eq_map_kind {ruleKinds : RuleKinds} {tokens : List Fragment}
    {ms : List Modifier}
    (h : List.Forall₂ (fun token m => Modifier.read ruleKinds token = .ok m) tokens ms) :
    kindsNamed tokens = ms.map (·.kind) := by
  induction h with
  | nil => rfl
  | cons hread _ ih => rw [kindsNamed, List.filterMap_cons, Modifier.kindNamed?_of_read hread,
      ← kindsNamed, ih, List.map_cons]

/-- What was read has a modifier of every kind that a token names, and of no other. -/
theorem contains_iff_mem_kindsNamed {ruleKinds : RuleKinds} {policy : DuplicatePolicy}
    {block : Fragment} {map : ModifierMap} (h : parse ruleKinds policy block = .ok map)
    {kind : ModifierKind} : map.contains kind = true ↔ kind ∈ kindsNamed (tokens block) := by
  obtain ⟨ms, hms, rfl⟩ := eq_foldl_put_of_readTokens h
  rw [kindsNamed_eq_map_kind (Reading.mapM_eq_ok_iff.mp hms), contains_iff, ← ofModifiers,
    entries_ofModifiers, map_kind_filterMap_last?, kinds, List.mem_eraseDups]

/-! ## Tokens in sequence -/

/-- The kinds of the modifiers in a map are those that the tokens passed so far name. -/
def Covers (m : ModifierMap) (passed : List Fragment) : Prop :=
  ∀ kind, m.contains kind = true ↔ kind ∈ kindsNamed passed

theorem covers_empty : ({} : ModifierMap).Covers [] := by
  intro kind
  exact iff_of_false Bool.false_ne_true List.not_mem_nil

/-- A map still covers the tokens passed, with one token more, once its modifier is put in. -/
theorem Covers.put {m : ModifierMap} {passed : List Fragment} (h : m.Covers passed)
    {ruleKinds : RuleKinds} {token : Fragment} {modifier : Modifier}
    (hread : Modifier.read ruleKinds token = .ok modifier) :
    (m.put modifier).Covers (passed ++ [token]) := by
  intro kind
  rw [contains_put, h kind, kindsNamed_concat hread, List.mem_append, List.mem_singleton]

/-- Where no kind is named twice, the modifiers are put one behind the other. -/
theorem Covers.readTokens_of_nodup {m : ModifierMap} {passed : List Fragment} (h : m.Covers passed)
    (ruleKinds : RuleKinds) (policy : DuplicatePolicy) {tokens : List Fragment}
    (hnodup : (kindsNamed (passed ++ tokens)).Nodup) :
    readTokens ruleKinds policy m tokens =
      (tokens.mapM (Modifier.read ruleKinds)).map fun ms => ⟨m.entries ++ ms⟩ := by
  induction tokens generalizing m passed with
  | nil =>
    rw [List.mapM_nil]
    exact congrArg Except.ok (congrArg ModifierMap.mk (List.append_nil _).symm)
  | cons token tokens ih =>
    rw [readTokens, List.mapM_cons]
    cases hread : Modifier.read ruleKinds token with
    | error e => rfl
    | ok modifier =>
      rw [List.append_cons] at hnodup
      have hpassed : (kindsNamed (passed ++ [token])).Nodup := by
        rw [kindsNamed, List.filterMap_append] at hnodup
        exact (List.nodup_append.mp hnodup).1
      have hnew : ¬ m.contains modifier.kind = true := by
        rw [h modifier.kind]
        exact ((nodup_kindsNamed_concat hread).mp hpassed).1
      have hput : m.put modifier = ⟨m.entries ++ [modifier]⟩ := by
        rw [ModifierMap.put, if_neg hnew]
      have hcovers := h.put hread
      rw [hput] at hcovers
      show (m.insert policy modifier >>= fun extended => _) = _
      rw [insert_of_not_contains hnew]
      show readTokens ruleKinds policy ⟨m.entries ++ [modifier]⟩ tokens = _
      rw [ih hcovers hnodup]
      show _ = ((tokens.mapM (Modifier.read ruleKinds) >>= fun ms => pure (modifier :: ms)).map _)
      cases tokens.mapM (Modifier.read ruleKinds) with
      | error e => rfl
      | ok ms => exact congrArg (fun es => Except.ok (ModifierMap.mk es)) (List.append_assoc _ _ _)

/-- The strict policy refuses a modifier exactly if its kind has been named. -/
theorem Covers.insert_reject {m : ModifierMap} {passed : List Fragment} (h : m.Covers passed)
    (modifier : Modifier) :
    m.insert .reject modifier =
      if modifier.kind ∈ kindsNamed passed then
        refuse (.duplicateModifier modifier.name) modifier.span
      else .ok (m.put modifier) := by
  rw [insert]
  refine if_congr ?_ rfl rfl
  rw [h modifier.kind]
  exact and_iff_right rfl

/-- Under the lenient policy no duplicate is ever reported. -/
theorem sparesDuplicates_readTokens (ruleKinds : RuleKinds) (m : ModifierMap)
    (tokens : List Fragment) : (readTokens ruleKinds .lastWins m tokens).SparesDuplicates := by
  induction tokens generalizing m with
  | nil => trivial
  | cons token tokens ih =>
    rw [readTokens]
    refine (Modifier.sparesDuplicates_read ruleKinds token).bind fun modifier => ?_
    rw [insert_lastWins]
    exact ih (m.put modifier)

/-- **A run of tokens**, from any map. The induction is on the tokens that are left; those that are
passed account for the kinds in the map, and no two of them name the same. -/
theorem Covers.stricter_readTokens {m : ModifierMap} {passed : List Fragment}
    (h : m.Covers passed) (hpassed : (kindsNamed passed).Nodup) (ruleKinds : RuleKinds)
    (tokens : List Fragment) :
    Reading.Stricter (¬ (kindsNamed (passed ++ tokens)).Nodup)
      (readTokens ruleKinds .reject m tokens) (readTokens ruleKinds .lastWins m tokens) := by
  induction tokens generalizing m passed with
  | nil =>
    rw [List.append_nil]
    exact .agrees trivial fun _ _ => not_not_intro hpassed
  | cons token tokens ih =>
    rw [readTokens, readTokens]
    refine (Modifier.sparesDuplicates_read ruleKinds token).bind_stricter ?_
    intro modifier hread
    rw [insert_lastWins, h.insert_reject]
    split
    · rename_i hnamed
      refine .refuses (sparesDuplicates_readTokens ruleKinds (m.put modifier) tokens) ?_
      -- The tokens up to the one in hand name its kind twice already.
      intro hnodup
      have hpart : (passed ++ [token]).Sublist (passed ++ token :: tokens) :=
        (List.singleton_sublist.mpr List.mem_cons_self).append_left passed
      have hconcat := hnodup.sublist (hpart.filterMap Modifier.kindNamed?)
      exact ((nodup_kindsNamed_concat hread).mp hconcat).1 hnamed
    · rename_i hnew
      have htail := ih (h.put hread) ((nodup_kindsNamed_concat hread).mpr ⟨hnew, hpassed⟩)
      rwa [List.append_assoc, List.singleton_append] at htail

/-- **One block.** -/
theorem stricter_parse (ruleKinds : RuleKinds) (block : Fragment) :
    Reading.Stricter (RepeatsKind block) (parse ruleKinds .reject block)
      (parse ruleKinds .lastWins block) :=
  covers_empty.stricter_readTokens .nil ruleKinds (tokens block)

/-- Without duplicates the policy on them has no part in what is read, and nothing is replaced. -/
theorem parse_of_nodup (ruleKinds : RuleKinds) (policy : DuplicatePolicy) {block : Fragment}
    (h : (kindsNamed (tokens block)).Nodup) :
    parse ruleKinds policy block =
      ((tokens block).mapM (Modifier.read ruleKinds)).map ModifierMap.mk :=
  covers_empty.readTokens_of_nodup ruleKinds policy h

end ModifierMap

end ContentFilter
