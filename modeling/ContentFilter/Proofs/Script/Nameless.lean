import ContentFilter.Proofs.Script.Collecting

/-!
# Calls that name no scriptlet

The call `()` stands for all scriptlets, which makes sense in a rule that makes an exception from
them. It is accepted in any script rule, though, and where such a rule is collected, the resolver is
asked for the code of a scriptlet without a name (`exists_nameless_call`). All other calls that are
accepted have a name. So no nameless call is made of the resolver exactly if no rule that is
collected has the call `()`.
-/

set_option autoImplicit false

namespace ContentFilter.ScriptCollection

/-- A scriptlet call that names none. -/
def namelessCall : Text := "//scriptlet()".toList

variable {m : Materializer} {config : Config} {lists : List (Nat × Text)} {page : Page}

/-- A call has no name exactly if the content of the rule is the call that names none. -/
theorem content_eq_namelessCall_iff {r : CosmeticRule} {text : Text} {call : ScriptletCall}
    (hcall : r.call? = some text) (hparse : ScriptletCall.parse (.whole text) = .ok call) :
    r.content = namelessCall ↔ call.name = [] := by
  have hmark : namelessCall = CosmeticRule.scriptletMark ++ ['(', ')'] := rfl
  rw [ScriptletCall.name_eq_nil_iff_of_parse hparse, (CosmeticRule.call?_eq_some_iff.mp hcall).2,
    hmark, List.append_right_inj]
  rfl

/-- A nameless call that is made of the resolver is that of a collected rule with the call `()`. -/
theorem exists_content_of_name_eq_nil {i : ScriptletInvocation}
    (hi : i ∈ (ofStorage m {} (loadStorage config lists).1 page).calls.toList) (hname : i.name = []) :
    ∃ r ∈ wanted (loadStorage config lists).1 page.domain,
      r.content = namelessCall ∧ i.ruleText = r.text := by
  obtain ⟨r, hr, text, call, hcall, hparse, hi⟩ := (mem_calls_iff m config lists page i).mp hi
  refine ⟨r, hr, (content_eq_namelessCall_iff hcall hparse).mpr ?_, ?_⟩
  · rcases hi with rfl | rfl <;> exact hname
  · rcases hi with rfl | rfl <;> rfl

/-- A collected rule with the call `()` makes a nameless call. -/
theorem exists_nameless_of_content {r : CosmeticRule}
    (hr : r ∈ wanted (loadStorage config lists).1 page.domain) (hcontent : r.content = namelessCall) :
    ∃ i ∈ (ofStorage m {} (loadStorage config lists).1 page).calls.toList, i.name = [] := by
  have hscript : r.marker.isScript = true := by
    rw [(wants_iff.mp (List.of_mem_filter hr)).1]
    rfl
  have hcall : r.call? = some ['(', ')'] := CosmeticRule.call?_eq_some_iff.mpr ⟨hscript, hcontent⟩
  have hparse : ScriptletCall.parse (.whole ['(', ')']) = .ok {} := rfl
  refine ⟨m.invocation r {} false none, ?_, rfl⟩
  exact (mem_calls_iff m config lists page _).mpr ⟨r, hr, _, _, hcall, hparse, .inl rfl⟩

/-- **Nameless calls.** Whatever lists are loaded, and for every page, all calls made of the
resolver while the scripts are collected name a scriptlet exactly if no rule with the call `()` is
collected, and whatever call has no name comes from such a rule. -/
theorem forall_named_iff (m : Materializer) (config : Config) (lists : List (Nat × Text))
    (page : Page) :
    let storage := (loadStorage config lists).1
    let calls := (ofStorage m {} storage page).calls.toList
    ((∀ i ∈ calls, i.name ≠ []) ↔
      ∀ r ∈ storage.cosmeticRules, r.marker = ⟨.script, false⟩ → r.appliesTo page.domain = true →
        r.content ≠ "//scriptlet()".toList) ∧
    ∀ i ∈ calls, i.name = [] → ∃ r ∈ storage.cosmeticRules, r.marker = ⟨.script, false⟩ ∧
      r.appliesTo page.domain = true ∧ r.content = "//scriptlet()".toList ∧ i.ruleText = r.text := by
  intro storage calls
  refine ⟨⟨fun hnamed r hr hmarker happlies hcontent => ?_, fun hnone i hi hname => ?_⟩,
    fun i hi hname => ?_⟩
  · have hwanted : r ∈ wanted storage page.domain :=
      List.mem_filter.mpr ⟨hr, wants_iff.mpr ⟨hmarker, happlies⟩⟩
    obtain ⟨i, hi, hname⟩ := exists_nameless_of_content (m := m) hwanted hcontent
    exact hnamed i hi hname
  · obtain ⟨r, hr, hcontent, -⟩ := exists_content_of_name_eq_nil hi hname
    obtain ⟨hmem, hwants⟩ := List.mem_filter.mp hr
    obtain ⟨hmarker, happlies⟩ := wants_iff.mp hwants
    exact hnone r hmem hmarker happlies hcontent
  · obtain ⟨r, hr, hcontent, htext⟩ := exists_content_of_name_eq_nil hi hname
    obtain ⟨hmem, hwants⟩ := List.mem_filter.mp hr
    obtain ⟨hmarker, happlies⟩ := wants_iff.mp hwants
    exact ⟨r, hmem, hmarker, happlies, hcontent, htext⟩

/-- A rule for all pages that calls no scriptlet by name, as it is read from the first line of
list 0. -/
def namelessRule : CosmeticRule where
  id := ⟨0, 0⟩
  text := "#%#//scriptlet()".toList
  marker := ⟨.script, false⟩
  content := namelessCall

/-- Not every call that is made of the resolver has a name. -/
theorem exists_nameless_call :
    ¬ ∀ (m : Materializer) (config : Config) (lists : List (Nat × Text)) (url : Text) (page : Page),
      Page.ofUrl? url = some page →
        ∀ i ∈ (ofStorage m {} (loadStorage config lists).1 page).calls.toList, i.name ≠ [] := by
  intro h
  have hpage : Page.ofUrl? "https://a.com/".toList =
      some ⟨"https://a.com/".toList, "a.com".toList⟩ := by decide
  have hlast : IsLastOf [(0, namelessRule.text)] 0 namelessRule.text := ⟨[], [], rfl, by simp⟩
  have hread : Rule.read ({} : Config).parser.duplicates ⟨0, 0⟩ namelessRule.text =
      .ok (some (.cosmetic namelessRule)) := by rfl
  have hmem : .cosmetic namelessRule ∈ (loadStorage {} [(0, namelessRule.text)]).1.rules :=
    mem_rules_of_isLastOf hlast (by decide) (by rfl) hread
  let page : Page := ⟨"https://a.com/".toList, "a.com".toList⟩
  have hwanted : namelessRule ∈
      wanted (loadStorage {} [(0, namelessRule.text)]).1 page.domain :=
    List.mem_filter.mpr ⟨Storage.mem_cosmeticRules.mpr hmem, by decide⟩
  obtain ⟨i, hi, hname⟩ := exists_nameless_of_content (m := ⟨fun _ => [], [], []⟩) hwanted rfl
  exact h _ _ _ _ _ hpage i hi hname

end ContentFilter.ScriptCollection
