import ContentFilter.Proofs.Modifier.Duplicates
import ContentFilter.Proofs.Modifier.Writing
import ContentFilter.Proofs.Network.Redirection
import ContentFilter.Proofs.Network.Shift
import Mathlib.Data.List.Perm.Basic

/-!
# The order of modifiers

Modifiers are added to a rule one after the other, and an effect may overwrite what an earlier one
has supplied. What can be overwritten are the three lists and the value that a rule keeps. Each list
is supplied by one kind of modifier, the value by three. So the effects of modifiers of different
kinds can be added in any order (`Modifier.Effect.Apart.add_comm`), unless two of them supply the
value.

A token also says where it stands, and this is different in another order. It does not show in the
effect that the token has. So what a block comes to is settled by what each of its tokens
contributes wherever it stands (`exists_contributions_iff`), and two blocks with the same tokens
come to the same, but for the text that is kept with the rule.
-/

set_option autoImplicit false

namespace ContentFilter

/-! ## Effects that do not overwrite each other -/

namespace Modifier

/-- Of two effects at most one supplies each of the lists, and the value. -/
structure Effect.Apart (e e' : Effect) : Prop where
  domains : e.domains = none ∨ e'.domains = none
  apps : e.apps = none ∨ e'.apps = none
  methods : e.methods = none ∨ e'.methods = none
  advanced : e.advanced = none ∨ e'.advanced = none

/-- Of two optional values of which one is missing, the order of preference does not matter. -/
theorem getD_getD_comm {α : Type} {x y : Option α} (h : x = none ∨ y = none) (a : α) :
    y.getD (x.getD a) = x.getD (y.getD a) := by
  rcases h with rfl | rfl <;> rfl

/-- Effects that supply different things can be added in either order. -/
theorem Effect.Apart.add_comm {e e' : Effect} (h : e.Apart e') (r : NetworkRule) :
    (r.add e).add e' = (r.add e').add e := by
  simp only [NetworkRule.add, FlagSet.union_right_comm _ e.options,
    FlagSet.union_right_comm _ e.permittedTypes, FlagSet.union_right_comm _ e.restrictedTypes,
    getD_getD_comm h.domains, getD_getD_comm h.apps, getD_getD_comm h.methods,
    getD_getD_comm h.advanced]

/-- Which kinds of modifiers supply what can be overwritten. -/
structure Effect.SuppliedBy (kind : ModifierKind) (e : Effect) : Prop where
  domains : kind ≠ .domain → e.domains = none
  apps : kind ≠ .app → e.apps = none
  methods : kind ≠ .method → e.methods = none
  advanced : suppliesValue kind = false → e.advanced = none

/-- What an effect supplies is told by the kind of its modifier. -/
theorem suppliedBy_effect {allowlist : Bool} {m : Modifier} {e : Effect}
    (h : m.effect allowlist = .ok e) : e.SuppliedBy m.kind := by
  obtain ⟨kind, name, value, negated, span⟩ := m
  cases kind with
  | domain | app | method =>
    obtain ⟨scope, -, rfl⟩ := Reading.map_eq_ok_iff.mp h
    constructor <;> simp
  | redirect | redirectRule =>
    obtain rfl := Except.ok.inj h
    exact ⟨fun _ => rfl, fun _ => rfl, fun _ => rfl, fun h => absurd h.symm Bool.false_ne_true⟩
  | replace =>
    simp only [effect] at h
    split at h
    · exact absurd h Reading.error_ne_ok
    · obtain rfl := Except.ok.inj h
      exact ⟨fun _ => rfl, fun _ => rfl, fun _ => rfl, fun h => absurd h.symm Bool.false_ne_true⟩
  | requestType type =>
    obtain rfl := Except.ok.inj h
    rw [typeEffect]
    split
    · exact ⟨fun _ => rfl, fun _ => rfl, fun _ => rfl, fun _ => rfl⟩
    · split <;> exact ⟨fun _ => rfl, fun _ => rfl, fun _ => rfl, fun _ => rfl⟩
  | _ =>
    obtain rfl := Except.ok.inj h
    exact ⟨fun _ => rfl, fun _ => rfl, fun _ => rfl, fun _ => rfl⟩

/-- Modifiers of different kinds supply different things, if at most one of them supplies a value.
-/
theorem Effect.SuppliedBy.apart {kind kind' : ModifierKind} {e e' : Effect}
    (h : e.SuppliedBy kind) (h' : e'.SuppliedBy kind') (hne : kind ≠ kind')
    (hvalue : suppliesValue kind = false ∨ suppliesValue kind' = false) : e.Apart e' := by
  have hone : ∀ k : ModifierKind, kind ≠ k ∨ kind' ≠ k := by
    intro k
    by_contra hboth
    rw [not_or, not_not, not_not] at hboth
    exact hne (hboth.1.trans hboth.2.symm)
  exact ⟨(hone .domain).imp h.domains h'.domains, (hone .app).imp h.apps h'.apps,
    (hone .method).imp h.methods h'.methods, hvalue.imp h.advanced h'.advanced⟩

end Modifier

namespace NetworkRule

open ModifierMap (kindsNamed tokens)

/-! ## Contributions -/

/-- What a token contributes to a rule. -/
structure Contribution where
  /-- The kind of modifier that it names. -/
  kind : ModifierKind
  effect : Modifier.Effect

/-- The contribution of a token to a rule that makes an exception, or to one that does not. -/
def contribution (allowlist : Bool) (token : Fragment) : Reading Contribution := do
  let m ← Modifier.read (ruleKinds allowlist) token
  let e ← m.effect allowlist
  return ⟨m.kind, e⟩

/-- Moving a token moves the errors of its contribution. -/
theorem contribution_shift (base : Nat) (allowlist : Bool) (token : Fragment) :
    contribution allowlist (token.shift base) =
      (contribution allowlist token).shiftErrors base := by
  rw [contribution, contribution, Modifier.read_shift]
  refine Reading.shift_bind base fun m => ?_
  rw [Modifier.effect_shift]
  exact Reading.shift_bind base fun e => rfl

/-- It does not matter where the token stands. -/
theorem contribution_eq_ok_iff_whole {allowlist : Bool} {token : Fragment} {c : Contribution} :
    contribution allowlist token = .ok c ↔ contribution allowlist (.whole token.text) = .ok c := by
  have hmoved := contribution_shift token.offset allowlist (.whole token.text)
  rw [← Fragment.mk_eq_shift_whole] at hmoved
  rw [show contribution allowlist token = _ from hmoved]
  cases contribution allowlist (.whole token.text) with
  | error e => exact iff_of_false nofun nofun
  | ok c' => exact Iff.rfl

/-- A contribution is the kind and the effect of the modifier that a token is read into. -/
theorem contribution_eq_ok_iff {allowlist : Bool} {token : Fragment} {c : Contribution} :
    contribution allowlist token = .ok c ↔
      ∃ m, Modifier.read (ruleKinds allowlist) token = .ok m ∧ m.kind = c.kind ∧
        m.effect allowlist = .ok c.effect := by
  obtain ⟨kind, effect⟩ := c
  rw [contribution, Reading.bind_eq_ok_iff]
  refine exists_congr fun m => and_congr_right fun _ => ?_
  rw [Reading.bind_eq_ok_iff]
  constructor
  · rintro ⟨e, he, hc⟩
    obtain ⟨rfl, rfl⟩ := Contribution.mk.inj (Except.ok.inj hc)
    exact ⟨rfl, he⟩
  · rintro ⟨rfl, he⟩
    exact ⟨effect, he, rfl⟩

/-- Reading the tokens and having the effects of all modifiers is having the contribution of each
token. -/
theorem exists_contributions_iff {allowlist : Bool} {tokens : List Fragment}
    {kinds : List ModifierKind} {es : List Modifier.Effect} :
    (∃ ms, tokens.mapM (Modifier.read (ruleKinds allowlist)) = .ok ms ∧ ms.map (·.kind) = kinds ∧
      effects allowlist ms = .ok es) ↔
      ∃ cs, List.Forall₂ (fun token c => contribution allowlist token = .ok c) tokens cs ∧
        cs.map (·.kind) = kinds ∧ cs.map (·.effect) = es := by
  simp only [effects, Reading.mapM_eq_ok_iff]
  constructor
  · rintro ⟨ms, hms, rfl, hes⟩
    induction hms generalizing es with
    | nil =>
      obtain rfl := List.forall₂_nil_left_iff.mp hes
      exact ⟨[], .nil, rfl, rfl⟩
    | @cons token m tokens ms hm _ ih =>
      obtain ⟨e, es', he, hes', rfl⟩ := List.forall₂_cons_left_iff.mp hes
      obtain ⟨cs, hcs, hkinds, rfl⟩ := ih hes'
      refine ⟨⟨m.kind, e⟩ :: cs, .cons (contribution_eq_ok_iff.mpr ⟨m, hm, rfl, he⟩) hcs, ?_, rfl⟩
      rw [List.map_cons, List.map_cons, hkinds]
  · rintro ⟨cs, hcs, rfl, rfl⟩
    induction hcs with
    | nil => exact ⟨[], .nil, rfl, .nil⟩
    | @cons token c tokens cs hc _ ih =>
      obtain ⟨m, hm, hkind, he⟩ := contribution_eq_ok_iff.mp hc
      obtain ⟨ms, hms, hkinds, hes⟩ := ih
      refine ⟨m :: ms, .cons hm hms, ?_, .cons he hes⟩
      rw [List.map_cons, List.map_cons, hkind, hkinds]

/-- Tokens contribute modifiers of the kinds that they name. -/
theorem map_kind_contributions {allowlist : Bool} {ts : List Text} {cs : List Contribution}
    (h : List.Forall₂ (fun t c => contribution allowlist (.whole t) = .ok c) ts cs) :
    cs.map (·.kind) = ts.filterMap (fun t => Modifier.kindNamed? (.whole t)) := by
  induction h with
  | nil => rfl
  | cons hc _ ih =>
    obtain ⟨m, hm, hkind, -⟩ := contribution_eq_ok_iff.mp hc
    rw [List.map_cons, List.filterMap_cons, Modifier.kindNamed?_of_read hm, hkind, ih]

/-- What a contribution supplies is told by its kind. -/
theorem suppliedBy_of_contributions {allowlist : Bool} {ts : List Text} {cs : List Contribution}
    (h : List.Forall₂ (fun t c => contribution allowlist (.whole t) = .ok c) ts cs)
    {c : Contribution} (hc : c ∈ cs) : c.effect.SuppliedBy c.kind := by
  obtain ⟨t, -, ht⟩ := Reading.exists_mem_of_forall₂ h hc
  obtain ⟨m, -, hkind, he⟩ := contribution_eq_ok_iff.mp ht
  exact hkind ▸ Modifier.suppliedBy_effect he

/-- The effects of different kinds can be added in any order, if at most one of the kinds supplies
the value that a rule keeps. -/
theorem foldl_add_perm {cs cs' : List Contribution} (hperm : cs.Perm cs')
    (hsupplied : ∀ c ∈ cs, c.effect.SuppliedBy c.kind) (hdistinct : (cs.map (·.kind)).Nodup)
    (hvalue : ((cs.map (·.kind)).countP Modifier.suppliesValue) ≤ 1) (r : NetworkRule) :
    (cs.map (·.effect)).foldl add r = (cs'.map (·.effect)).foldl add r := by
  rw [List.foldl_map, List.foldl_map]
  refine hperm.foldl_eq' (fun c hc c' hc' r => ?_) r
  by_cases hkind : c.kind = c'.kind
  · rw [List.inj_on_of_nodup_map hdistinct hc hc' hkind]
  · refine ((hsupplied c hc).apart (hsupplied c' hc') hkind ?_).add_comm r
    -- Otherwise both kinds would be counted.
    by_contra hboth
    rw [not_or, Bool.not_eq_false, Bool.not_eq_false] at hboth
    have hsub : [c.kind, c'.kind].Subperm ((cs.map (·.kind)).filter Modifier.suppliesValue) := by
      refine List.subperm_of_subset (by simpa using hkind) fun k hk => ?_
      rw [List.mem_filter]
      rcases List.mem_pair.mp hk with rfl | rfl
      · exact ⟨List.mem_map_of_mem hc, hboth.1⟩
      · exact ⟨List.mem_map_of_mem hc', hboth.2⟩
    have htwo := hsub.length_le
    rw [← List.countP_eq_length_filter] at htwo
    exact absurd (htwo.trans hvalue) (by simp)

/-- No effect looks at the text of a rule. -/
theorem foldl_add_text (r : NetworkRule) (t : Text) (es : List Modifier.Effect) :
    es.foldl add { r with text := t } = { es.foldl add r with text := t } := by
  induction es generalizing r with
  | nil => rfl
  | cons e es ih => exact ih (r.add e)

/-! ## Blocks -/

/-- The kind of modifier that a token names. White space around the token does not matter. -/
def tokenKind? (t : Text) : Option ModifierKind :=
  Modifier.kindNamed? (.whole (Text.trim Text.isWhite t))

/-- Tokens, as they are written, that a block can hold in any order. -/
structure Interchangeable (ts : List Text) : Prop where
  /-- Between commas they are found again. -/
  comma : ∀ t ∈ ts, Text.Guarded ',' t
  ending : ∀ t ∈ ts, t.getLast? ≠ some '\\'
  /-- None of them can be taken for the opening of the block. -/
  opening : ∀ t ∈ ts, Text.Guarded blockOpening t
  /-- No two of them name the same kind. -/
  distinct : (ts.filterMap tokenKind?).Nodup
  /-- At most one of them supplies the value that a rule keeps. -/
  value : (ts.filterMap tokenKind?).countP Modifier.suppliesValue ≤ 1

/-- Interchangeable tokens stay interchangeable in any order. -/
theorem Interchangeable.perm {ts ts' : List Text} (h : Interchangeable ts) (hperm : ts.Perm ts') :
    Interchangeable ts' where
  comma t ht := h.comma t (hperm.mem_iff.mpr ht)
  ending t ht := h.ending t (hperm.mem_iff.mpr ht)
  opening t ht := h.opening t (hperm.mem_iff.mpr ht)
  distinct := (hperm.filterMap tokenKind?).nodup_iff.mp h.distinct
  value := ((hperm.filterMap tokenKind?).countP_eq Modifier.suppliesValue).symm.trans_le h.value

/-- The inside of the block that holds tokens. -/
def blockOf (ts : List Text) : Text := Text.join [','] ts

/-- What is left of tokens without the white space around them, as far as anything is. -/
def trimmed (ts : List Text) : List Text := (ts.map (Text.trim Text.isWhite)).filter (!·.isEmpty)

section Block

variable {ts : List Text}

/-- A block of interchangeable tokens has these tokens, less the white space around them. -/
theorem Interchangeable.map_text_tokens (h : Interchangeable ts) (offset : Nat) :
    (tokens ⟨offset, blockOf ts⟩).map (·.text) = trimmed ts := by
  by_cases hne : ts = []
  · subst hne
    rfl
  · have hcut : Text.cut (Text.unescaped ',') (blockOf ts) = ts := by
      refine Text.cut_join (by decide) hne h.comma fun t ht => ?_
      simpa [Text.endsInBackslash] using h.ending t (List.dropLast_subset _ ht)
    rw [ModifierMap.map_text_tokens, hcut, trimmed]

/-- The kind that a token names does not depend on its place. -/
theorem kindNamed?_eq_whole (token : Fragment) :
    Modifier.kindNamed? token = Modifier.kindNamed? (.whole token.text) := by
  have hmoved := Modifier.Token.ofFragment_shift token.offset (.whole token.text)
  rw [← Fragment.mk_eq_shift_whole] at hmoved
  exact congrArg (fun parts => ModifierKind.named? parts.name) hmoved

/-- Trimming tokens and dropping the blank ones leaves the kinds that they name. -/
theorem filterMap_kindNamed?_trimmed (ts : List Text) :
    (trimmed ts).filterMap (fun t => Modifier.kindNamed? (.whole t)) = ts.filterMap tokenKind? := by
  rw [trimmed, List.filterMap_filter, List.filterMap_map]
  refine List.filterMap_congr fun t _ => ?_
  -- Of a blank token nothing is left, and nothing is no name.
  cases hleft : Text.trim Text.isWhite t with
  | nil => simp [tokenKind?, hleft]; rfl
  | cons c rest => simp [tokenKind?, hleft]

/-- A block of interchangeable tokens names the kinds that they name. -/
theorem Interchangeable.kindsNamed_tokens (h : Interchangeable ts) (offset : Nat) :
    kindsNamed (tokens ⟨offset, blockOf ts⟩) = ts.filterMap tokenKind? := by
  rw [← filterMap_kindNamed?_trimmed, ← h.map_text_tokens offset, List.filterMap_map, kindsNamed]
  exact List.filterMap_congr fun token _ => kindNamed?_eq_whole token

end Block

/-! ## Rules -/

/-- What stands in front of a block with interchangeable tokens. The pattern does not begin like one
between slashes, so that the block cannot be taken for its end. -/
structure Leading (mark pattern : Text) : Prop where
  marked : mark = [] ∨ mark = allowlistMark
  unmarked : mark = [] → ¬ allowlistMark <+: pattern
  opening : pattern.getLast? ≠ some '\\'
  slash : pattern.head? ≠ some '/'

section Rules

variable {policy : DuplicatePolicy} {id : RuleId} {mark pattern : Text} {ts ts' : List Text}
  {r : NetworkRule}

/-- A composed rule is the bare rule with the effects of the modifiers of the block, if it may have
that pattern. -/
theorem compose_eq_ok_iff {block : Text} : compose policy id mark pattern block = .ok r ↔
    ∃ modifiers es, ModifierMap.parse (ruleKinds (isException mark)) policy
        ⟨Text.byteLength (mark ++ pattern) + 1, block⟩ = .ok modifiers ∧
      (pattern = [] → modifiers.contains .domain = true) ∧
      effects (isException mark) modifiers.entries = .ok es ∧
      r = es.foldl add (bare id (written mark pattern block) pattern (isException mark)) := by
  rw [compose, Reading.bind_eq_ok_iff]
  refine exists_congr fun modifiers => ?_
  rw [exists_and_left]
  refine and_congr_right fun _ => ?_
  by_cases hempty : pattern = [] ∧ modifiers.contains .domain = false
  · rw [if_pos hempty]
    refine iff_of_false Reading.error_ne_ok ?_
    rintro ⟨-, hdomain, -⟩
    rw [hdomain hempty.1] at hempty
    exact Bool.false_ne_true hempty.2.symm
  · rw [if_neg hempty, exists_and_left, and_iff_right, Reading.bind_eq_ok_iff]
    · refine exists_congr fun es => and_congr_right fun _ => ?_
      exact ⟨fun h => (Except.ok.inj h).symm, fun h => congrArg Except.ok h.symm⟩
    · intro hpattern
      by_contra hdomain
      exact hempty ⟨hpattern, by simpa using hdomain⟩

/-- Behind what may lead it, a block of interchangeable tokens is told from the pattern. -/
theorem Leading.composable (h : Leading mark pattern) (hts : Interchangeable ts) :
    Composable mark pattern (blockOf ts) :=
  ⟨h.marked, h.unmarked, h.opening, Text.guarded_join (by decide) (by decide) hts.opening⟩

/-- **What a block comes to** is settled by what each of its tokens contributes. -/
theorem parse_blockOf_eq_ok_iff (h : Leading mark pattern) (hts : Interchangeable ts) :
    parse policy id (.whole (written mark pattern (blockOf ts))) = .ok r ↔
      ∃ cs, List.Forall₂ (fun t c => contribution (isException mark) (.whole t) = .ok c)
          (trimmed ts) cs ∧
        (pattern = [] → .domain ∈ cs.map (·.kind)) ∧
        r = (cs.map (·.effect)).foldl add
          (bare id (written mark pattern (blockOf ts)) pattern (isException mark)) := by
  have hnodup := hts.distinct
  rw [← hts.kindsNamed_tokens (Text.byteLength (mark ++ pattern) + 1)] at hnodup
  rw [parse_of_not_slashes policy id (h.composable hts) (fun hslashes => h.slash hslashes.1),
    compose_eq_ok_iff, ModifierMap.parse_of_nodup _ policy hnodup,
    ← hts.map_text_tokens (Text.byteLength (mark ++ pattern) + 1)]
  simp only [List.forall₂_map_left_iff, ← contribution_eq_ok_iff_whole]
  constructor
  · rintro ⟨modifiers, es, hmodifiers, hdomain, hes, rfl⟩
    obtain ⟨ms, hms, rfl⟩ := Reading.map_eq_ok_iff.mp hmodifiers
    obtain ⟨cs, hcs, hkinds, rfl⟩ := exists_contributions_iff.mp ⟨ms, hms, rfl, hes⟩
    refine ⟨cs, hcs, fun hpattern => ?_, rfl⟩
    rw [hkinds]
    exact ModifierMap.contains_iff.mp (hdomain hpattern)
  · rintro ⟨cs, hcs, hdomain, rfl⟩
    obtain ⟨ms, hms, hkinds, hes⟩ := exists_contributions_iff.mpr ⟨cs, hcs, rfl, rfl⟩
    refine ⟨⟨ms⟩, _, Reading.map_eq_ok_iff.mpr ⟨ms, hms, rfl⟩, fun hpattern => ?_, hes, rfl⟩
    rw [ModifierMap.contains_iff, hkinds]
    exact hdomain hpattern

/-- A rule that is read is read from any other order of its tokens too, and differs in its text
only. -/
theorem parse_blockOf_of_perm (h : Leading mark pattern) (hts : Interchangeable ts)
    (hperm : ts.Perm ts')
    (hr : parse policy id (.whole (written mark pattern (blockOf ts))) = .ok r) :
    parse policy id (.whole (written mark pattern (blockOf ts'))) =
      .ok { r with text := written mark pattern (blockOf ts') } := by
  obtain ⟨cs, hcs, hdomain, rfl⟩ := (parse_blockOf_eq_ok_iff h hts).mp hr
  have hkinds : cs.map (·.kind) = ts.filterMap tokenKind? := by
    rw [map_kind_contributions hcs, filterMap_kindNamed?_trimmed]
  -- What the tokens contribute is put in the new order with them.
  have htrimmed : (trimmed ts').Perm (trimmed ts) := ((hperm.symm.map _).filter _)
  obtain ⟨cs', hcs', hcsperm⟩ := List.perm_comp_forall₂ htrimmed hcs
  refine (parse_blockOf_eq_ok_iff h (hts.perm hperm)).mpr ⟨cs', hcs', fun hpattern => ?_, ?_⟩
  · exact ((hcsperm.map _).mem_iff).mpr (hdomain hpattern)
  · rw [← foldl_add_perm hcsperm.symm (fun c hc => suppliedBy_of_contributions hcs hc)
      (hkinds ▸ hts.distinct) (hkinds ▸ hts.value)]
    exact (foldl_add_text _ _ _).symm

/-- **Modifiers can be written in any order.** In both orders the rule is read, and comes to the
same but for its text, or in both it is refused. -/
theorem parse_blockOf_perm (policy : DuplicatePolicy) (id : RuleId) (h : Leading mark pattern)
    (hts : Interchangeable ts) (hperm : ts.Perm ts') :
    (∃ r, parse policy id (.whole (written mark pattern (blockOf ts))) = .ok r ∧
      parse policy id (.whole (written mark pattern (blockOf ts'))) =
        .ok { r with text := written mark pattern (blockOf ts') }) ∨
    ((∃ e, parse policy id (.whole (written mark pattern (blockOf ts))) = .error e) ∧
      ∃ e, parse policy id (.whole (written mark pattern (blockOf ts'))) = .error e) := by
  cases hr : parse policy id (.whole (written mark pattern (blockOf ts))) with
  | ok r => exact .inl ⟨r, rfl, parse_blockOf_of_perm h hts hperm hr⟩
  | error e =>
    refine .inr ⟨⟨e, rfl⟩, ?_⟩
    cases hr' : parse policy id (.whole (written mark pattern (blockOf ts'))) with
    | error e' => exact ⟨e', rfl⟩
    | ok r' =>
      have hback := parse_blockOf_of_perm h (hts.perm hperm) hperm.symm hr'
      rw [hr] at hback
      exact nomatch hback

end Rules

/-- A list, an exclusion of a type, and a value with a comma and a `$`, both escaped. -/
theorem parse_blockOf_perm_replace :
    ∃ r, parse .reject ⟨1, 0⟩
        (.whole "||a.com^$~script, domain=a.com|~b.com,replace=/x\\$\\,y/z/".toList) = .ok r ∧
      parse .reject ⟨1, 0⟩
          (.whole "||a.com^$replace=/x\\$\\,y/z/,~script, domain=a.com|~b.com".toList) =
        .ok { r with
          text := "||a.com^$replace=/x\\$\\,y/z/,~script, domain=a.com|~b.com".toList } := by
  obtain ⟨r, hr⟩ : ∃ r, parse .reject ⟨1, 0⟩
    (.whole "||a.com^$~script, domain=a.com|~b.com,replace=/x\\$\\,y/z/".toList) = .ok r := ⟨_, rfl⟩
  have hleading : Leading [] "||a.com^".toList := ⟨.inl rfl, by decide, by decide, by decide⟩
  have htokens : Interchangeable
      ["~script".toList, " domain=a.com|~b.com".toList, "replace=/x\\$\\,y/z/".toList] :=
    ⟨by decide, by decide, by decide, by decide, by decide⟩
  have hperm : List.Perm
      ["~script".toList, " domain=a.com|~b.com".toList, "replace=/x\\$\\,y/z/".toList]
      ["replace=/x\\$\\,y/z/".toList, "~script".toList, " domain=a.com|~b.com".toList] := by
    decide
  have hboth := parse_blockOf_perm .reject ⟨1, 0⟩ hleading htokens hperm
  rcases hboth with ⟨r', hr', hother⟩ | ⟨⟨e, he⟩, -⟩
  · obtain rfl := Except.ok.inj (hr.symm.trans hr')
    exact ⟨r, hr, hother⟩
  · exact nomatch hr.symm.trans he

end NetworkRule

end ContentFilter
