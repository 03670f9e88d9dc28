import ContentFilter.Proofs.Rule.Calls
import ContentFilter.Proofs.Script.Materializer
import ContentFilter.Proofs.Storage.SeveralLists
import ContentFilter.Script.Collection

/-!
# Collecting the scripts of a page

The rules that are wanted for a page are appended one by one. A rule is passed over if one of its
identity was collected or if its script cannot be made, and a script is reused if one is kept for
the identity. With rules of different identities, whose scripts can be made, and nothing kept, none
of this happens: every rule is collected with the script that is built from it (`Collected`).

The rules of a storage that was loaded are such rules. Their identities are different, and their
calls can be read since they were read when the rules were.
-/

set_option autoImplicit false

namespace ContentFilter.ScriptCollection

variable {m : Materializer} {c : ScriptCollection} {rule : CosmeticRule} {page : Page}

/-! ## One rule -/

/-- Nothing was collected under an identity, and nothing is kept under it. -/
def IsNew (c : ScriptCollection) (id : RuleId) : Prop :=
  c.contains id = false ∧ c.cache.get? id = none

theorem isNew_start (id : RuleId) : (start {}).IsNew id :=
  ⟨by simp [contains, start], ScriptCache.get?_empty id⟩

/-- The collection with a rule more, whose script was built with some calls of the resolver. -/
def extend (c : ScriptCollection) (rule : CosmeticRule)
    (built : MaterializedScript × List ScriptletInvocation) : ScriptCollection :=
  (c.record ⟨built.1, c.cache.insert rule.id built.1, built.2⟩).add ⟨rule, built.1⟩

/-- A rule of a new identity whose script can be built is collected with it. -/
theorem append_eq_extend {built : MaterializedScript × List ScriptletInvocation}
    (h : c.IsNew rule.id) (hbuild : m.build rule (some page.domain) = .ok built) :
    c.append m rule (some page) = c.extend rule built := by
  have hkept : Materializer.kept? c.cache rule (some page.domain) = none :=
    Materializer.kept?_eq_none_of_get? h.2
  rw [append, h.1, Materializer.materialize]
  simp only [Option.map_some, hkept, hbuild]
  rfl

section

variable (c rule) (built : MaterializedScript × List ScriptletInvocation)

theorem calls_extend : (c.extend rule built).calls.toList = c.calls.toList ++ built.2 := by
  rw [extend, add]
  split <;> simp [record]

theorem cache_extend : (c.extend rule built).cache = c.cache.insert rule.id built.1 := by
  rw [extend, add]
  split <;> rfl

/-- A generic rule comes behind the generic ones. -/
theorem generic_extend : (c.extend rule built).generic.toList =
    c.generic.toList ++ if rule.isGeneric then [⟨rule, built.1⟩] else [] := generic_add _ _

/-- A specific rule comes behind the specific ones. -/
theorem specific_extend : (c.extend rule built).specific.toList =
    c.specific.toList ++ if rule.isGeneric then [] else [⟨rule, built.1⟩] := specific_add _ _

theorem contains_extend (id : RuleId) :
    (c.extend rule built).contains id = (c.contains id || rule.id == id) := contains_add _ _ id

theorem isNew_extend {id : RuleId} (h : c.IsNew id) (hid : rule.id ≠ id) :
    (c.extend rule built).IsNew id := by
  refine ⟨?_, ?_⟩
  · rw [contains_extend, h.1, Bool.false_or, beq_eq_false_iff_ne]
    exact hid
  · rw [cache_extend, ScriptCache.get?_insert, if_neg hid, h.2]

end

/-! ## All rules -/

/-- The collection of some rules, each with the script that was built from it, and with the calls
made for that. -/
structure Collected (built : CosmeticRule → MaterializedScript × List ScriptletInvocation)
    (rules : List CosmeticRule) (c : ScriptCollection) : Prop where
  generic : c.generic.toList =
    (rules.filter (·.isGeneric)).map fun r => ⟨r, (built r).1⟩
  specific : c.specific.toList =
    (rules.filter (!·.isGeneric)).map fun r => ⟨r, (built r).1⟩
  calls : c.calls.toList = rules.flatMap fun r => (built r).2
  /-- No other identity is affected. -/
  isNew : ∀ id, (∀ r ∈ rules, r.id ≠ id) → c.IsNew id

section

variable {rules : List CosmeticRule}
  {built : CosmeticRule → MaterializedScript × List ScriptletInvocation}

theorem collected_start (built : CosmeticRule → MaterializedScript × List ScriptletInvocation) :
    Collected built [] (start {}) where
  generic := rfl
  specific := rfl
  calls := rfl
  isNew id _ := isNew_start id

/-- **The step.** -/
theorem Collected.append (h : Collected built rules c) (hids : ∀ r ∈ rules, r.id ≠ rule.id)
    (hbuild : m.build rule (some page.domain) = .ok (built rule)) :
    Collected built (rules ++ [rule]) (c.append m rule (some page)) := by
  -- Nothing is collected or kept under the identity of the rule, since no earlier rule has it.
  rw [append_eq_extend (h.isNew rule.id hids) hbuild]
  constructor
  case generic =>
    rw [generic_extend, h.generic, List.filter_append, List.map_append]
    cases hgeneric : rule.isGeneric <;> simp [hgeneric]
  case specific =>
    rw [specific_extend, h.specific, List.filter_append, List.map_append]
    cases hgeneric : rule.isGeneric <;> simp [hgeneric]
  case calls =>
    rw [calls_extend, h.calls, List.flatMap_append, List.flatMap_singleton]
  case isNew =>
    intro id hid
    refine isNew_extend c rule (built rule) (h.isNew id fun r hr => ?_) ?_
    · exact hid r (List.mem_append_left _ hr)
    · exact hid rule (List.mem_append_right _ List.mem_cons_self)

/-- **The run.** -/
theorem Collected.foldl (h : Collected built rules c) {rest : List CosmeticRule}
    (hids : (rules ++ rest).Pairwise (·.id ≠ ·.id))
    (hbuild : ∀ r ∈ rest, m.build r (some page.domain) = .ok (built r)) :
    Collected built (rules ++ rest) (rest.foldl (·.append m · (some page)) c) := by
  induction rest generalizing rules c with
  | nil =>
    rw [List.append_nil]
    exact h
  | cons rule rest ih =>
    have hrule : ∀ r ∈ rules, r.id ≠ rule.id := fun r hr =>
      (List.pairwise_append.mp hids).2.2 r hr rule List.mem_cons_self
    have hstep := h.append hrule (hbuild rule List.mem_cons_self)
    rw [List.append_cons] at hids ⊢
    exact ih hstep hids fun r hr => hbuild r (List.mem_cons_of_mem rule hr)

end

/-! ## The rules of a storage that was loaded -/

/-- The script rules of a storage that hold on pages of a domain and make no exception, in the order
in which the storage has them. -/
def wanted (storage : Storage) (domain : Text) : List CosmeticRule :=
  storage.cosmeticRules.filter (wants domain)

/-- The rules wanted for a domain are the script rules that hold there and make no exception. -/
theorem wants_iff {domain : Text} :
    wants domain rule = true ↔ rule.marker = ⟨.script, false⟩ ∧ rule.appliesTo domain = true := by
  have hmarker : rule.marker = ⟨.script, false⟩ ↔
      rule.marker.effect = .script ∧ rule.marker.exception = false := by
    cases rule.marker
    rw [Marker.mk.injEq]
  rw [wants, Bool.and_eq_true, Bool.and_eq_true, Bool.not_eq_true', Marker.isScript, beq_iff_eq,
    CosmeticRule.isException, hmarker]

variable {config : Config} {lists : List (Nat × Text)}

/-- The script of a rule that was loaded can always be built. -/
theorem exists_build_of_mem (m : Materializer) (domain : Option Text)
    (h : rule ∈ (loadStorage config lists).1.cosmeticRules) :
    ∃ built, m.build rule domain = .ok built := by
  cases hcall : rule.call? with
  | none => exact ⟨_, Materializer.build_of_raw hcall⟩
  | some text =>
    obtain ⟨_, _, -, -, hread⟩ := exists_line_of_mem_rules (Storage.mem_cosmeticRules.mp h)
    obtain ⟨call, hparse⟩ := Rule.exists_call_of_read hread hcall
    exact ⟨_, Materializer.build_of_readable hcall hparse⟩

/-- **Every wanted rule is collected**, with the script that is built from it. -/
theorem exists_collected (m : Materializer) (config : Config) (lists : List (Nat × Text))
    (page : Page) :
    let rules := wanted (loadStorage config lists).1 page.domain
    ∃ built, (∀ r ∈ rules, m.build r (some page.domain) = .ok (built r)) ∧
      Collected built rules (ofStorage m {} (loadStorage config lists).1 page) := by
  intro rules
  -- No rule is passed over: its script can be made, and its identity is its own.
  have hbuild : ∀ r ∈ rules, ∃ built, m.build r (some page.domain) = .ok built := fun r hr =>
    exists_build_of_mem m _ (List.mem_of_mem_filter hr)
  choose! built hbuilt using hbuild
  refine ⟨built, hbuilt, ?_⟩
  have hids : rules.Pairwise (·.id ≠ ·.id) :=
    ((wellFormed_loadStorage config lists).cosmeticRules_sorted.imp RuleId.Precedes.ne).filter _
  exact (collected_start built).foldl hids hbuilt

/-- The calls made of the resolver are those of the wanted rules that call a scriptlet, two for
each. -/
theorem mem_calls_iff (m : Materializer) (config : Config) (lists : List (Nat × Text)) (page : Page)
    (i : ScriptletInvocation) :
    i ∈ (ofStorage m {} (loadStorage config lists).1 page).calls.toList ↔
      ∃ r ∈ wanted (loadStorage config lists).1 page.domain, ∃ text call,
        r.call? = some text ∧ ScriptletCall.parse (.whole text) = .ok call ∧
          (i = m.invocation r call false none ∨ i = m.invocation r call true (some page.domain)) := by
  obtain ⟨built, hbuilt, hcollected⟩ := exists_collected m config lists page
  rw [hcollected.calls, List.mem_flatMap]
  exact exists_congr fun r => and_congr_right fun hr =>
    Materializer.mem_calls_of_build (hbuilt r hr) i

end ContentFilter.ScriptCollection
