import ContentFilter.Proofs.Script.Coherence
import ContentFilter.Proofs.Script.Materializer

/-!
# Keeping scripts does not show

Scripts are made one after the other for the rules of one storage, whose identities tell the rules
apart, and nothing is kept at first. What is answered is then what would be answered if nothing were
ever kept, except that a scriptlet that is asked for without a page is not resolved again: it names
the domain that it was resolved for last. What does show is how often the resolver is called.

The invariant relates the kept scripts to the demands so far (`Session.Faithful`): whatever is kept
for a rule is the rule's own, and for a scriptlet it is the script that was resolved last. The former
is why a call that cannot be read is refused every time, since nothing is ever kept for it. So each
answer is as `Transparent` says, from the demands before it alone.
-/

set_option autoImplicit false

namespace ContentFilter.Materializer

/-! ## Demands and answers -/

/-- A demand for the script of a rule, for a page or for none. -/
structure Demand where
  rule : CosmeticRule
  page : Option Page

/-- A demand and what came of it. -/
structure Answered extends Demand where
  /-- The script that was kept for the rule at the time. -/
  kept? : Option MaterializedScript
  /-- The script and the calls made of the resolver, or why there is no script. -/
  answer : Reading (MaterializedScript × List ScriptletInvocation)

/-- The script that was resolved for an answer, if the resolver was called. -/
def Answered.resolved? (a : Answered) : Option MaterializedScript :=
  match a.answer with
  | .ok (script, _ :: _) => some script
  | _ => none

/-- The script that was resolved last for a rule; `earlier` has the latest answer first. -/
def lastResolved? (id : RuleId) : List Answered → Option MaterializedScript
  | [] => none
  | a :: earlier =>
    if a.rule.id = id then a.resolved?.or (lastResolved? id earlier) else lastResolved? id earlier

/-- The kept scripts, and what was answered so far, the latest first. -/
structure Session where
  cache : ScriptCache := {}
  log : List Answered := []

/-- The script of a rule and the calls made of the resolver, or why there is no script. -/
def answer (m : Materializer) (cache : ScriptCache) (rule : CosmeticRule) (page : Option Page) :
    Reading (MaterializedScript × List ScriptletInvocation) :=
  (m.materialize cache rule page).map fun made => (made.script, made.calls)

namespace Session

/-- Meet one demand. A failure leaves the kept scripts as they are. -/
def ask (m : Materializer) (s : Session) (d : Demand) : Session :=
  { cache := match m.materialize s.cache d.rule d.page with
      | .ok made => made.cache
      | .error _ => s.cache
    log := ⟨d, s.cache.get? d.rule.id, m.answer s.cache d.rule d.page⟩ :: s.log }

/-- Meet demands one after the other; nothing is kept at first. -/
def run (m : Materializer) (demands : List Demand) : Session := demands.foldl (ask m) {}

end Session

/-- An answer is what the rule alone would give, except for the domain that a scriptlet names if it
is asked for without a page; and the resolver is called only as often as that needs. -/
structure Transparent (m : Materializer) (earlier : List Answered) (a : Answered) : Prop where
  /-- A script that the rule holds itself is given as it is. -/
  raw : a.rule.call? = none → a.answer = .ok (⟨a.rule.content, a.rule.content, none⟩, [])
  /-- A call that cannot be read is refused, always for the same reason. -/
  unreadable : ∀ text e, a.rule.call? = some text →
    ScriptletCall.parse (.whole text) = .error e → a.answer = .error e
  /-- For a page, the verbose variant names its domain. -/
  paged : ∀ text call page, a.rule.call? = some text →
    ScriptletCall.parse (.whole text) = .ok call → a.page = some page →
      a.answer.map (·.1) = .ok
        ⟨m.resolve (m.invocation a.rule call false none),
          m.resolve (m.invocation a.rule call true (some page.domain)), some page.domain⟩
  /-- For a page, it makes no difference whether anything is kept. -/
  fresh : ∀ page, a.page = some page →
    a.answer.map (·.1) = (m.materialize {} a.rule (some page)).map (·.script)
  /-- Without a page, the script that was resolved last is given. -/
  pageless : ∀ text call, a.rule.call? = some text →
    ScriptletCall.parse (.whole text) = .ok call → a.page = none →
      a.answer.map (·.1) = .ok ((lastResolved? a.rule.id earlier).getD
        ⟨m.resolve (m.invocation a.rule call false none),
          m.resolve (m.invocation a.rule call true none), none⟩)
  /-- The plain variant is the same every time. -/
  plain : ∀ text call script calls, a.rule.call? = some text →
    ScriptletCall.parse (.whole text) = .ok call → a.answer = .ok (script, calls) →
      script.script = m.resolve (m.invocation a.rule call false none)
  /-- What is kept for a scriptlet is the script that was resolved last. -/
  kept : a.rule.call?.isSome = true → a.kept? = lastResolved? a.rule.id earlier
  /-- The resolver is called twice, for the plain variant first, or not at all. -/
  calls : ∀ text call script calls, a.rule.call? = some text →
    ScriptletCall.parse (.whole text) = .ok call → a.answer = .ok (script, calls) →
      calls = if needsResolving a.kept? a.page then
          [m.invocation a.rule call false none,
            m.invocation a.rule call true (a.page.map (·.domain))]
        else []

/-! ## One demand -/

section

variable {m : Materializer} {cache : ScriptCache} {rule : CosmeticRule} {page : Option Page}
  {text : Text} {call : ScriptletCall} {script : MaterializedScript}

/-- The own script of a rule without a call is its content. -/
theorem Owns.eq_of_raw (howns : m.Owns rule script) (h : rule.call? = none) :
    script = ⟨rule.content, rule.content, none⟩ := by
  rw [owns_iff, build_of_raw h] at howns
  exact (Except.ok.inj howns).symm

/-- The own script of a rule with a call is the call resolved for the domain that it names. -/
theorem Owns.eq_of_readable (howns : m.Owns rule script) (h : rule.call? = some text)
    (hparse : ScriptletCall.parse (.whole text) = .ok call) :
    script = (m.resolveCall rule script.domain call).1 := by
  rw [owns_iff, build_of_readable h hparse] at howns
  exact (Except.ok.inj howns).symm

/-- A rule whose call cannot be read has no script. -/
theorem not_owns_of_unreadable {e : SyntaxError} (h : rule.call? = some text)
    (hparse : ScriptletCall.parse (.whole text) = .error e) : ¬ m.Owns rule script := by
  rw [owns_iff, build_of_unreadable h hparse]
  exact fun howns => nomatch howns

/-- A scriptlet that needs resolving is resolved for the page. -/
theorem answer_of_needsResolving (h : rule.call? = some text)
    (hparse : ScriptletCall.parse (.whole text) = .ok call)
    (hneeds : needsResolving (cache.get? rule.id) page = true) :
    m.answer cache rule page = .ok (m.resolveCall rule (page.map (·.domain)) call) := by
  rw [answer, materialize]
  simp only [kept?_of_needsResolving h hneeds, build_of_readable h hparse]
  rfl

/-- A scriptlet that does not is answered with what is kept, and no call is made. -/
theorem answer_of_not_needsResolving (h : rule.call? = some text)
    (hneeds : needsResolving (cache.get? rule.id) page = false) :
    ∃ script, cache.get? rule.id = some script ∧ m.answer cache rule page = .ok (script, []) ∧
      ∀ p, page = some p → script.domain = some p.domain := by
  obtain ⟨script, hget, hkept, hdomain⟩ := kept?_of_not_needsResolving h hneeds
  refine ⟨script, hget, ?_, hdomain⟩
  rw [answer, materialize]
  simp only [hkept]
  rfl

/-- Without a page, what is kept is given. -/
theorem answer_of_no_page (h : rule.call? = some text)
    (hparse : ScriptletCall.parse (.whole text) = .ok call) :
    (m.answer cache rule none).map (·.1) =
      .ok ((cache.get? rule.id).getD (m.resolveCall rule none call).1) := by
  cases hget : cache.get? rule.id with
  | none =>
    rw [answer_of_needsResolving h hparse (by rw [hget]; rfl)]
    rfl
  | some script =>
    have hneeds : needsResolving (cache.get? rule.id) none = false := by rw [hget]; rfl
    obtain ⟨script', hget', hanswer, -⟩ := answer_of_not_needsResolving (m := m) h hneeds
    rw [hanswer, Option.some.inj (hget.symm.trans hget')]
    rfl

/-! Nothing is kept for the rule but scripts of its own. -/

section

variable (hown : ∀ script, cache.get? rule.id = some script → m.Owns rule script)

include hown

/-- A rule without a call is answered with its content, and no call is made. -/
theorem answer_of_raw (h : rule.call? = none) :
    m.answer cache rule page = .ok (⟨rule.content, rule.content, none⟩, []) := by
  have hspec := m.materialize_spec cache rule page
  rw [answer]
  generalize m.materialize cache rule page = made at hspec ⊢
  cases hspec with
  | reused script hkept =>
    rw [(hown script (get?_of_kept? hkept)).eq_of_raw h]
    rfl
  | built script calls hkept hbuild =>
    rw [build_of_raw h] at hbuild
    exact hbuild.symm
  | refused e hkept hbuild =>
    rw [build_of_raw h] at hbuild
    exact nomatch hbuild

/-- A call that cannot be read is answered with its error. -/
theorem answer_of_unreadable {e : SyntaxError} (h : rule.call? = some text)
    (hparse : ScriptletCall.parse (.whole text) = .error e) :
    m.answer cache rule page = .error e := by
  have hspec := m.materialize_spec cache rule page
  rw [answer]
  generalize m.materialize cache rule page = made at hspec ⊢
  cases hspec with
  | reused script hkept =>
    -- A script that is kept would be the rule's own, and this rule has none.
    exact absurd (hown script (get?_of_kept? hkept)) (not_owns_of_unreadable h hparse)
  | built script calls hkept hbuild =>
    rw [build_of_unreadable h hparse] at hbuild
    exact nomatch hbuild
  | refused e' hkept hbuild =>
    rw [build_of_unreadable h hparse] at hbuild
    exact congrArg Except.error (Except.error.inj hbuild).symm

/-- For a page, what is kept does not show. -/
theorem answer_of_page (page : Page) (h : rule.call? = some text)
    (hparse : ScriptletCall.parse (.whole text) = .ok call) :
    (m.answer cache rule (some page)).map (·.1) =
      .ok (m.resolveCall rule (some page.domain) call).1 := by
  cases hneeds : needsResolving (cache.get? rule.id) (some page) with
  | true =>
    rw [answer_of_needsResolving h hparse hneeds]
    rfl
  | false =>
    obtain ⟨script, hget, hanswer, hdomain⟩ := answer_of_not_needsResolving (m := m) h hneeds
    rw [hanswer, ← hdomain page rfl, ← (hown script hget).eq_of_readable h hparse]
    rfl

/-- A scriptlet that is answered names a domain for which it was resolved, and was resolved now only
if it had to be. -/
theorem script_of_answer (h : rule.call? = some text)
    (hparse : ScriptletCall.parse (.whole text) = .ok call)
    {calls : List ScriptletInvocation} (hanswer : m.answer cache rule page = .ok (script, calls)) :
    script = (m.resolveCall rule script.domain call).1 ∧
      calls = if needsResolving (cache.get? rule.id) page then
          (m.resolveCall rule (page.map (·.domain)) call).2
        else [] := by
  cases hneeds : needsResolving (cache.get? rule.id) page with
  | true =>
    rw [answer_of_needsResolving h hparse hneeds] at hanswer
    obtain ⟨rfl, rfl⟩ := Prod.mk.inj (Except.ok.inj hanswer)
    exact ⟨rfl, rfl⟩
  | false =>
    obtain ⟨kept, hget, hkept, -⟩ := answer_of_not_needsResolving (m := m) h hneeds
    rw [hkept] at hanswer
    obtain ⟨rfl, rfl⟩ := Prod.mk.inj (Except.ok.inj hanswer)
    exact ⟨(hown kept hget).eq_of_readable h hparse, rfl⟩

/-- Whether anything is kept of the rule or nothing at all makes no difference for a page. -/
theorem answer_of_page_congr {cache' : ScriptCache} (page : Page)
    (hown' : ∀ script, cache'.get? rule.id = some script → m.Owns rule script) :
    (m.answer cache rule (some page)).map (·.1) = (m.answer cache' rule (some page)).map (·.1) := by
  cases hcall : rule.call? with
  | none => rw [answer_of_raw hown hcall, answer_of_raw hown' hcall]
  | some text =>
    cases hparse : ScriptletCall.parse (.whole text) with
    | error e => rw [answer_of_unreadable hown hcall hparse, answer_of_unreadable hown' hcall hparse]
    | ok call => rw [answer_of_page hown page hcall hparse, answer_of_page hown' page hcall hparse]

end

end

/-- The answer to a demand is as it should be if what is kept for the rule is its own and, for a
scriptlet, the script that was resolved last. -/
theorem transparent_answer {m : Materializer} {cache : ScriptCache} {d : Demand}
    {earlier : List Answered}
    (hown : ∀ script, cache.get? d.rule.id = some script → m.Owns d.rule script)
    (hlast : d.rule.call?.isSome = true → cache.get? d.rule.id = lastResolved? d.rule.id earlier) :
    Transparent m earlier ⟨d, cache.get? d.rule.id, m.answer cache d.rule d.page⟩ where
  raw := answer_of_raw hown
  unreadable text e := answer_of_unreadable hown
  paged text call page hcall hparse hpage := by
    have hanswer := answer_of_page hown page hcall hparse
    rw [← hpage] at hanswer
    exact hanswer
  fresh page hpage := by
    -- Where nothing is kept, all that is kept is the rule's own.
    have hnone : ∀ script, ({} : ScriptCache).get? d.rule.id = some script →
        m.Owns d.rule script := fun script hget =>
      nomatch (ScriptCache.get?_empty d.rule.id).symm.trans hget
    have hanswer := answer_of_page_congr hown page hnone
    rw [← hpage] at hanswer
    rw [hanswer, hpage, answer]
    cases m.materialize {} d.rule (some page) <;> rfl
  pageless text call hcall hparse hpage := by
    have hanswer : (m.answer cache d.rule none).map (·.1) = _ := answer_of_no_page hcall hparse
    rw [← hpage, hlast (by rw [hcall]; rfl)] at hanswer
    exact hanswer
  plain text call script calls hcall hparse hanswer := by
    rw [(script_of_answer hown hcall hparse hanswer).1]
    rfl
  kept := hlast
  calls text call script calls hcall hparse hanswer := (script_of_answer hown hcall hparse hanswer).2

/-! ## All demands -/

/-- Rules that are told apart by their identities. -/
def ToldApart (rules : List CosmeticRule) : Prop :=
  ∀ r ∈ rules, ∀ r' ∈ rules, r.id = r'.id → r = r'

namespace Session

variable {m : Materializer} {rules : List CosmeticRule} {s : Session}

/-- What holds of a session whose demands are all for some rules: what is kept for a rule is its
own, what is kept for a scriptlet is the script that was resolved last, and all answers were as they
should be. -/
structure Faithful (m : Materializer) (rules : List CosmeticRule) (s : Session) : Prop where
  own : ∀ rule ∈ rules, ∀ script, s.cache.get? rule.id = some script → m.Owns rule script
  last : ∀ rule ∈ rules, rule.call?.isSome = true →
    s.cache.get? rule.id = lastResolved? rule.id s.log
  answers : ∀ later a earlier, s.log = later ++ a :: earlier → Transparent m earlier a

theorem faithful_start (m : Materializer) (rules : List CosmeticRule) : Faithful m rules {} where
  own rule _ script hget := nomatch (ScriptCache.get?_empty rule.id).symm.trans hget
  last rule _ _ := ScriptCache.get?_empty rule.id
  answers later a earlier hlog := absurd hlog (by simp)

/-- An answer is right if it was and those before it were. -/
theorem Faithful.answers_cons (h : Faithful m rules s) {a : Answered}
    (ha : Transparent m s.log a) (later : List Answered) (a' : Answered)
    (earlier : List Answered) (hlog : a :: s.log = later ++ a' :: earlier) :
    Transparent m earlier a' := by
  rcases List.cons_eq_append_iff.mp hlog with ⟨-, hlog⟩ | ⟨later', -, hlog⟩
  · obtain ⟨rfl, rfl⟩ := List.cons.inj hlog
    exact ha
  · exact h.answers _ _ _ hlog

/-- An answer for which the resolver was not called leaves everything as it is. -/
theorem Faithful.unresolved (h : Faithful m rules s) {a : Answered}
    (ha : Transparent m s.log a) (hresolved : a.resolved? = none) :
    Faithful m rules ⟨s.cache, a :: s.log⟩ where
  own := h.own
  last rule hrule hcall := by
    rw [lastResolved?, hresolved, Option.none_or, ite_self]
    exact h.last rule hrule hcall
  answers := h.answers_cons ha

/-- A script that was built takes the place of what was kept for its rule, and of nothing else since
no other rule has its identity. -/
theorem Faithful.built (h : Faithful m rules s) (hids : ToldApart rules) {a : Answered}
    (ha : Transparent m s.log a) (hrule : a.rule ∈ rules) {domain : Option Text}
    {script : MaterializedScript} {calls : List ScriptletInvocation}
    (hanswer : a.answer = .ok (script, calls)) (hbuild : m.build a.rule domain = .ok (script, calls)) :
    Faithful m rules ⟨s.cache.insert a.rule.id script, a :: s.log⟩ where
  own rule hrule' script' hget := by
    rw [ScriptCache.get?_insert] at hget
    by_cases hid : a.rule.id = rule.id
    · rw [if_pos hid] at hget
      obtain rfl := hids _ hrule _ hrule' hid
      obtain rfl := Option.some.inj hget
      exact ⟨domain, calls, hbuild⟩
    · rw [if_neg hid] at hget
      exact h.own rule hrule' script' hget
  last rule hrule' hcall := by
    rw [ScriptCache.get?_insert, lastResolved?]
    by_cases hid : a.rule.id = rule.id
    · rw [if_pos hid, if_pos hid]
      obtain rfl := hids _ hrule _ hrule' hid
      obtain ⟨text, hcall⟩ := Option.isSome_iff_exists.mp hcall
      -- There is a script, so the call could be read, and the resolver was called for it.
      cases hparse : ScriptletCall.parse (.whole text) with
      | error e =>
        rw [build_of_unreadable hcall hparse] at hbuild
        exact nomatch hbuild
      | ok call =>
        rw [build_of_readable hcall hparse] at hbuild
        obtain ⟨rfl, rfl⟩ := Prod.mk.inj (Except.ok.inj hbuild)
        rw [Answered.resolved?, hanswer]
        rfl
    · rw [if_neg hid, if_neg hid]
      exact h.last rule hrule' hcall
  answers := h.answers_cons ha

/-- **The step.** -/
theorem Faithful.ask (h : Faithful m rules s) (hids : ToldApart rules) {d : Demand}
    (hd : d.rule ∈ rules) : Faithful m rules (s.ask m d) := by
  have ha := transparent_answer (h.own d.rule hd) (h.last d.rule hd)
  have hspec := m.materialize_spec s.cache d.rule d.page
  rw [answer] at ha
  rw [Session.ask, answer]
  generalize m.materialize s.cache d.rule d.page = made at hspec ha ⊢
  cases hspec with
  | reused script hkept => exact h.unresolved ha rfl
  | refused e hkept hbuild => exact h.unresolved ha rfl
  | built script calls hkept hbuild => exact h.built hids ha hd rfl hbuild

/-- **The run.** -/
theorem Faithful.run (h : Faithful m rules s) (hids : ToldApart rules) {demands : List Demand}
    (hdemands : ∀ d ∈ demands, d.rule ∈ rules) : Faithful m rules (demands.foldl (Session.ask m) s) := by
  induction demands generalizing s with
  | nil => exact h
  | cons d demands ih =>
    exact ih (h.ask hids (hdemands d List.mem_cons_self)) fun d' hd' =>
      hdemands d' (List.mem_cons_of_mem d hd')

/-- A session answers every demand, in order. -/
theorem log_foldl_ask (m : Materializer) (s : Session) (demands : List Demand) :
    (demands.foldl (ask m) s).log.map (·.toDemand) =
      demands.reverse ++ s.log.map (·.toDemand) := by
  induction demands generalizing s with
  | nil => rfl
  | cons d demands ih =>
    rw [List.foldl_cons, ih, List.reverse_cons, List.append_assoc]
    rfl

/-- **Keeping scripts does not show.** Whatever is demanded of rules that are told apart by their
identities, for whatever pages and in whatever order, all demands are answered, and every answer is
as it should be from the demands before it. -/
theorem transparent_run (m : Materializer) (demands : List Demand)
    (hids : ToldApart (demands.map (·.rule))) :
    (run m demands).log.map (·.toDemand) = demands.reverse ∧
      ∀ later a earlier, (run m demands).log = later ++ a :: earlier →
        Transparent m earlier a := by
  constructor
  · rw [run, log_foldl_ask]
    exact List.append_nil _
  · have hstart := faithful_start m (demands.map (·.rule))
    exact (hstart.run hids fun d hd => List.mem_map_of_mem hd).answers

/-- A rule that calls a scriptlet without arguments. -/
def logRule : CosmeticRule where
  id := ⟨1, 0⟩
  text := "#%#//scriptlet('log')".toList
  marker := ⟨.script, false⟩
  content := "//scriptlet('log')".toList

/-- A resolver whose code is the name of the scriptlet and the domain of the page. -/
def nameAndDomain : Materializer where
  resolve i := i.name ++ i.domain.getD []
  engine := "extension".toList
  version := "1.0".toList

/-- A script is demanded for a page and then for one of another domain, which the answer names. -/
theorem transparent_run_other_domain :
    let first : Demand := ⟨logRule, some ⟨"https://a.com/".toList, "a.com".toList⟩⟩
    let second : Demand := ⟨logRule, some ⟨"https://b.com/".toList, "b.com".toList⟩⟩
    ToldApart ([first, second].map (·.rule)) ∧
      ∃ a earlier, (run nameAndDomain [first, second]).log = a :: earlier ∧
        a.answer.map (·.1) = .ok ⟨"log".toList, "logb.com".toList, some "b.com".toList⟩ := by
  intro first second
  have hids : ToldApart ([first, second].map (·.rule)) := by
    unfold ToldApart
    decide
  -- What is kept from the first demand names the other domain.
  obtain ⟨hdemands, htransparent⟩ := transparent_run nameAndDomain [first, second] hids
  refine ⟨hids, ?_⟩
  cases hlog : (run nameAndDomain [first, second]).log with
  | nil =>
    rw [hlog] at hdemands
    exact nomatch hdemands
  | cons a earlier =>
    rw [hlog] at hdemands
    have ha : a.toDemand = second := (List.cons.inj hdemands).1
    refine ⟨a, earlier, rfl, ?_⟩
    have hanswer := (htransparent [] a earlier hlog).paged "('log')".toList ⟨"log".toList, []⟩
    rw [ha] at hanswer
    exact hanswer _ (by decide) (by rfl) rfl

end Session

end ContentFilter.Materializer
