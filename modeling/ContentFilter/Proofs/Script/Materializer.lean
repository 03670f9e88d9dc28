import ContentFilter.Proofs.Reading
import ContentFilter.Script.Materializer

/-!
# Making one script

A script is found among the kept ones, or it is built from the rule and kept from then on, or it
cannot be built (`materialize_spec`). What building comes to is settled by the rule alone but for
the domain that is named: a script that the rule holds itself, the code of a call that can be read,
or the error of a call that cannot (`build_of_raw`, `build_of_readable`, `build_of_unreadable`).
-/

set_option autoImplicit false

namespace ContentFilter

theorem ScriptCache.get?_empty (id : RuleId) : ({} : ScriptCache).get? id = none :=
  Std.HashMap.getElem?_empty

namespace Materializer

variable {m : Materializer} {cache : ScriptCache} {rule : CosmeticRule} {page : Option Page}
  {domain : Option Text} {text : Text} {call : ScriptletCall}

/-! ## Building -/

/-- A rule without a call has its content as its script, in both variants. -/
theorem build_of_raw (h : rule.call? = none) :
    m.build rule domain = .ok (⟨rule.content, rule.content, none⟩, []) := by
  rw [build, h]

/-- A rule with a call that can be read has it resolved. -/
theorem build_of_readable (h : rule.call? = some text)
    (hparse : ScriptletCall.parse (.whole text) = .ok call) :
    m.build rule domain = .ok (m.resolveCall rule domain call) := by
  rw [build, h]
  simp only [hparse]
  rfl

/-- A rule with a call that cannot be read has the error of the call. -/
theorem build_of_unreadable {e : SyntaxError} (h : rule.call? = some text)
    (hparse : ScriptletCall.parse (.whole text) = .error e) : m.build rule domain = .error e := by
  rw [build, h]
  simp only [hparse]
  rfl

/-- What the resolver is asked while a script is built: both variants of the call, if there is one.
-/
theorem mem_calls_of_build {built : MaterializedScript × List ScriptletInvocation}
    (h : m.build rule domain = .ok built) (i : ScriptletInvocation) :
    i ∈ built.2 ↔ ∃ text call, rule.call? = some text ∧
      ScriptletCall.parse (.whole text) = .ok call ∧
        (i = m.invocation rule call false none ∨ i = m.invocation rule call true domain) := by
  cases hcall : rule.call? with
  | none =>
    rw [build_of_raw hcall] at h
    obtain rfl := Except.ok.inj h
    refine iff_of_false List.not_mem_nil ?_
    rintro ⟨text, call, htext, -⟩
    exact nomatch htext
  | some text =>
    cases hparse : ScriptletCall.parse (.whole text) with
    | error e =>
      rw [build_of_unreadable hcall hparse] at h
      exact nomatch h
    | ok call =>
      rw [build_of_readable hcall hparse] at h
      obtain rfl := Except.ok.inj h
      rw [resolveCall, List.mem_pair]
      constructor
      · exact fun hi => ⟨text, call, rfl, hparse, hi⟩
      · rintro ⟨text', call', htext, hparse', hi⟩
        obtain rfl := Option.some.inj htext
        rw [hparse] at hparse'
        obtain rfl := Except.ok.inj hparse'
        exact hi

/-! ## Materialising -/

/-- What having the script of a rule made can come to. -/
inductive Outcome (m : Materializer) (cache : ScriptCache) (rule : CosmeticRule)
    (page : Option Page) : Reading Materialization → Prop where
  | reused (script : MaterializedScript)
      (hkept : kept? cache rule (page.map (·.domain)) = some script) :
      Outcome m cache rule page (.ok { script, cache })
  | built (script : MaterializedScript) (calls : List ScriptletInvocation)
      (hkept : kept? cache rule (page.map (·.domain)) = none)
      (hbuild : m.build rule (page.map (·.domain)) = .ok (script, calls)) :
      Outcome m cache rule page (.ok { script, cache := cache.insert rule.id script, calls })
  | refused (e : SyntaxError) (hkept : kept? cache rule (page.map (·.domain)) = none)
      (hbuild : m.build rule (page.map (·.domain)) = .error e) :
      Outcome m cache rule page (.error e)

/-- What having a script made comes to. -/
theorem materialize_spec (m : Materializer) (cache : ScriptCache) (rule : CosmeticRule)
    (page : Option Page) : Outcome m cache rule page (m.materialize cache rule page) := by
  rw [materialize]
  cases hkept : kept? cache rule (page.map (·.domain)) with
  | some script => exact .reused script hkept
  | none =>
    cases hbuild : m.build rule (page.map (·.domain)) with
    | ok built => exact .built built.1 built.2 hkept hbuild
    | error e => exact .refused e hkept hbuild

/-! ## What serves again -/

theorem kept?_eq_none_of_get? (h : cache.get? rule.id = none) : kept? cache rule domain = none := by
  rw [kept?, h]
  cases rule.call? <;> rfl

/-- A scriptlet is resolved if nothing is kept for it, or what is kept names another domain than
that of the page. -/
def needsResolving : Option MaterializedScript → Option Page → Bool
  | none, _ => true
  | some _, none => false
  | some script, some page => script.domain != some page.domain

/-- Where a scriptlet needs resolving, nothing kept serves. -/
theorem kept?_of_needsResolving (hcall : rule.call? = some text)
    (h : needsResolving (cache.get? rule.id) page = true) :
    kept? cache rule (page.map (·.domain)) = none := by
  rw [kept?, hcall]
  cases hget : cache.get? rule.id with
  | none => rfl
  | some script =>
    cases page with
    | none => simp [hget, needsResolving] at h
    | some page => simpa [hget, needsResolving] using h

/-- Where it does not, the kept script serves, and names the domain of the page. -/
theorem kept?_of_not_needsResolving (hcall : rule.call? = some text)
    (h : needsResolving (cache.get? rule.id) page = false) :
    ∃ script, cache.get? rule.id = some script ∧
      kept? cache rule (page.map (·.domain)) = some script ∧
      ∀ p, page = some p → script.domain = some p.domain := by
  rw [kept?, hcall]
  cases hget : cache.get? rule.id with
  | none => simp [hget, needsResolving] at h
  | some script =>
    cases page with
    | none => exact ⟨script, rfl, by simp, fun _ hp => nomatch hp⟩
    | some page =>
      have hdomain : script.domain = some page.domain := by
        simpa [hget, needsResolving] using h
      refine ⟨script, rfl, by simp [hdomain], fun p hp => ?_⟩
      rw [hdomain, Option.some.inj hp]

end Materializer

end ContentFilter
