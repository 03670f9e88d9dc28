import ContentFilter.CommandLine.Run
import ContentFilter.Proofs.Json.Value
import ContentFilter.Proofs.Script.Collecting

/-!
# What the command `scripts` reports

For a page with a host, the command reports the texts of the script rules that hold there, generic
ones apart from specific ones, and leaves no rule out (`run_scripts`). What is reported is stated
without the steps that lead to it: which rules are reported and in which order (`IsSelection`), and
what the text of each is (`IsScriptText`). What is printed is the indented form of the report, and
the host and the texts are read back from it (`parse?_report`).
-/

set_option autoImplicit false

namespace ContentFilter.CommandLine

variable {files : Files} {inputs texts : List Text} {config : Config} {host : Text}
  {verbose : Bool} {rule : CosmeticRule}

/-! ## Files -/

/-- Lists that can be read are read in order, and numbered from a number on. -/
theorem readLists_eq_ok (h : List.Forall₂ (fun path text => files path = .ok text) inputs texts)
    (id : Nat) : readLists files id inputs = .ok ((texts.zipIdx id).map Prod.swap) := by
  induction h generalizing id with
  | nil => rfl
  | @cons path text _ _ hread _ ih =>
    have htext : readList files path = .ok text := by
      rw [readList, hread]
      rfl
    rw [readLists, htext, ih]
    rfl

/-! ## Rules -/

/-- Some rules are the script rules to report for a host: those of the stored rules that hold there
and make no exception, each of them once, by list and then by line. -/
structure IsSelection (config : Config) (texts : List Text) (host : Text)
    (rules : List CosmeticRule) : Prop where
  mem_iff : ∀ r, r ∈ rules ↔
    r ∈ (loadStorage config (texts.zipIdx.map Prod.swap)).1.cosmeticRules ∧
      r.marker = ⟨.script, false⟩ ∧ r.appliesTo host = true
  sorted : rules.Pairwise (·.id.Precedes ·.id)
  /-- The lists are numbered as they come, and their lines within them. -/
  line : ∀ r ∈ rules, ∃ text line, texts[r.id.list]? = some text ∧
    (Text.lines text)[r.id.key]? = some line ∧
      Rule.read config.parser.duplicates r.id line = .ok (some (.cosmetic r))

/-- Texts are numbered by their places. -/
theorem getElem?_of_isLastOf {id : Nat} {text : Text}
    (h : IsLastOf (texts.zipIdx.map Prod.swap) id text) : texts[id]? = some text := by
  obtain ⟨earlier, later, hsplit, -⟩ := h
  have hpair : (id, text) ∈ texts.zipIdx.map Prod.swap := by
    rw [hsplit]
    exact List.mem_append_right _ List.mem_cons_self
  obtain ⟨_, hzip, hswap⟩ := List.mem_map.mp hpair
  obtain ⟨rfl, rfl⟩ := Prod.mk.inj hswap
  exact List.mem_zipIdx_iff_getElem?.mp hzip

/-- The script rules that the storage of some lists has for a host are the selection to report. -/
theorem isSelection_wanted (config : Config) (texts : List Text) (host : Text) :
    IsSelection config texts host
      (ScriptCollection.wanted (loadStorage config (texts.zipIdx.map Prod.swap)).1 host) := by
  constructor
  case mem_iff =>
    intro r
    rw [ScriptCollection.wanted, List.mem_filter, ScriptCollection.wants_iff]
  case sorted =>
    exact (wellFormed_loadStorage config _).cosmeticRules_sorted.filter _
  case line =>
    intro r hr
    have hmem := Storage.mem_cosmeticRules.mp (List.mem_of_mem_filter hr)
    obtain ⟨text, line, hlast, hline, hread⟩ := exists_line_of_mem_rules hmem
    exact ⟨text, line, getElem?_of_isLastOf hlast, hline, hread⟩

/-- A single line has a single rule, if it has one. -/
theorem IsSelection.eq_singleton {line : Text} {rules : List CosmeticRule}
    (h : IsSelection config [line] host rules) (hline : Text.lines line = [line])
    (hread : Rule.read config.parser.duplicates ⟨0, 0⟩ line = .ok (some (.cosmetic rule)))
    (hmarker : rule.marker = ⟨.script, false⟩) (happlies : rule.appliesTo host = true) :
    rules = [rule] := by
  have hmem : rule ∈ rules := by
    have hlast : IsLastOf ([line].zipIdx.map Prod.swap) 0 line := ⟨[], [], rfl, by simp⟩
    have hat : (Text.lines line)[0]? = some line := by
      rw [hline]
      rfl
    have hstored := mem_rules_of_isLastOf hlast (by decide) hat hread
    exact (h.mem_iff rule).mpr ⟨Storage.mem_cosmeticRules.mpr hstored, hmarker, happlies⟩
  have honly : ∀ r ∈ rules, r = rule := by
    intro r hr
    obtain ⟨text, line', htext, hline', hread'⟩ := h.line r hr
    rw [List.getElem?_singleton] at htext
    obtain ⟨hlist, htext⟩ := Option.ite_none_right_eq_some.mp htext
    obtain rfl := Option.some.inj htext
    rw [hline, List.getElem?_singleton] at hline'
    obtain ⟨hkey, hline'⟩ := Option.ite_none_right_eq_some.mp hline'
    obtain rfl := Option.some.inj hline'
    have hid : r.id = ⟨0, 0⟩ := congrArg₂ RuleId.mk hlist hkey
    rw [hid, hread] at hread'
    exact (Rule.cosmetic.inj (Option.some.inj (Except.ok.inj hread'))).symm
  have hnodup : rules.Nodup := h.sorted.imp fun hlt heq => hlt.ne (congrArg _ heq)
  refine List.perm_singleton.mp
    ((List.perm_ext_iff_of_nodup hnodup (List.nodup_singleton rule)).mpr fun r => ?_)
  rw [List.mem_singleton]
  exact ⟨honly r, fun hr => hr ▸ hmem⟩

/-! ## Texts -/

/-- A text is what is reported of a script rule for a host: the content of the rule as it stands,
or, if that begins as a scriptlet call, the snippet of the call. -/
inductive IsScriptText (config : Config) (host : Text) (verbose : Bool) (rule : CosmeticRule) :
    Text → Prop where
  | verbatim (hcontent : ¬ "//scriptlet".toList <+: rule.content) :
      IsScriptText config host verbose rule rule.content
  | snippet (text : Text) (call : ScriptletCall)
      (hcontent : rule.content = "//scriptlet".toList ++ text)
      (hparse : ScriptletCall.parse (.whole text) = .ok call) :
      IsScriptText config host verbose rule (Resource.snippet {
        name := call.name
        args := call.args
        engine := config.engine
        version := config.version
        ruleText := rule.text
        verbose := verbose
        domain := if verbose then some host else none })

/-- The variant of a script that is reported. -/
def reported (verbose : Bool) (script : MaterializedScript) : Text :=
  if verbose then script.verbose else script.script

/-- A script that was built is reported with the right text. -/
theorem isScriptText_reported {built : MaterializedScript × List ScriptletInvocation}
    (hscript : rule.marker.isScript = true)
    (h : Materializer.build ⟨Resource.snippet, config.engine, config.version⟩ rule (some host) =
      .ok built) :
    IsScriptText config host verbose rule (reported verbose built.1) := by
  cases hcall : rule.call? with
  | none =>
    have hverbatim : ¬ "//scriptlet".toList <+: rule.content := by
      rintro ⟨text, htext⟩
      have hsome := CosmeticRule.call?_eq_some_iff.mpr ⟨hscript, htext.symm⟩
      exact nomatch hcall.symm.trans hsome
    rw [Materializer.build_of_raw hcall] at h
    obtain rfl := Except.ok.inj h
    cases verbose <;> exact .verbatim hverbatim
  | some text =>
    have hcontent := (CosmeticRule.call?_eq_some_iff.mp hcall).2
    cases hparse : ScriptletCall.parse (.whole text) with
    | error e =>
      rw [Materializer.build_of_unreadable hcall hparse] at h
      exact nomatch h
    | ok call =>
      rw [Materializer.build_of_readable hcall hparse] at h
      obtain rfl := Except.ok.inj h
      cases verbose <;> exact .snippet text call hcontent hparse

/-! ## The report -/

/-- What is printed of collected rules. -/
theorem scriptsJson_of_collected {page : Page} {rules : List CosmeticRule}
    {built : CosmeticRule → MaterializedScript × List ScriptletInvocation} {c : ScriptCollection}
    (h : ScriptCollection.Collected built rules c) :
    let texts := fun rules : List CosmeticRule => rules.map fun r => reported verbose (built r).1
    scriptsJson page verbose c = .obj [
      ("domain".toList, .str page.domain),
      ("generic".toList, .arr ((texts (rules.filter (·.isGeneric))).map .str)),
      ("specific".toList, .arr ((texts (rules.filter (!·.isGeneric))).map .str))] := by
  intro texts
  simp only [scriptsJson, h.generic, h.specific, texts, List.map_map]
  rfl

/-- The host and the texts are read back from what is printed of them. -/
theorem parse?_report (host : Text) (generic specific : List Text) :
    Json.Source.parse? (Json.indented (.obj [
        ("domain".toList, .str host),
        ("generic".toList, .arr (generic.map .str)),
        ("specific".toList, .arr (specific.map .str))])) =
      some (.object [
        (some "domain".toList, .string (some host)),
        (some "generic".toList, .array (generic.map fun t => .string (some t))),
        (some "specific".toList, .array (specific.map fun t => .string (some t)))]) := by
  rw [Json.parse?_indented]
  simp only [Json.source, Json.namedSources, Json.sources_map_str]

/-- **The report.** Whatever lists are read under whatever configuration, the command succeeds for
every page with a host, and what it prints names this host and has one text for each script rule to
report, in the order of the rules. The texts of rules without permitted domains come apart. -/
theorem run_scripts (files : Files) (path : Option Text) (config : Config)
    (inputs texts : List Text) (url host : Text) (verbose : Bool)
    (hconfig : readConfig files path = .ok config)
    (hfiles : List.Forall₂ (fun input text => files input = .ok text) inputs texts)
    (hhost : (Url.host? url).map (·.text) = some host) (hne : host ≠ []) :
    ∃ rules generic specific, IsSelection config texts host rules ∧
      List.Forall₂ (IsScriptText config host verbose)
        (rules.filter (·.domains.permitted.isEmpty)) generic ∧
      List.Forall₂ (IsScriptText config host verbose)
        (rules.filter (!·.domains.permitted.isEmpty)) specific ∧
      Invocation.run files ⟨path, .scripts inputs url verbose⟩ =
        { out := [Json.indented (.obj [
            ("domain".toList, .str host),
            ("generic".toList, .arr (generic.map .str)),
            ("specific".toList, .arr (specific.map .str))])] } := by
  have hpage : Page.ofUrl? url = some ⟨url, host⟩ := by
    obtain ⟨f, hf, rfl⟩ := Option.map_eq_some_iff.mp hhost
    simp only [Page.ofUrl?, hf, List.isEmpty_iff, hne, if_false]
  let lists := texts.zipIdx.map Prod.swap
  let rules := ScriptCollection.wanted (loadStorage config lists).1 host
  have hselection : IsSelection config texts host rules := isSelection_wanted config texts host
  obtain ⟨built, hbuilt, hcollected⟩ := ScriptCollection.exists_collected
    ⟨Resource.snippet, config.engine, config.version⟩ config lists ⟨url, host⟩
  -- Whichever part of the rules is reported, it is reported rule by rule.
  have htexts : ∀ keep : CosmeticRule → Bool,
      List.Forall₂ (IsScriptText config host verbose) (rules.filter keep)
        ((rules.filter keep).map fun r => reported verbose (built r).1) := by
    intro keep
    rw [List.forall₂_map_right_iff, List.forall₂_same]
    intro r hr
    have hrule := List.mem_of_mem_filter hr
    have hmarker := ((hselection.mem_iff r).mp hrule).2.1
    exact isScriptText_reported (by rw [hmarker]; rfl) (hbuilt r hrule)
  refine ⟨rules, _, _, hselection, htexts _, htexts _, ?_⟩
  have hrun : Invocation.run files ⟨path, .scripts inputs url verbose⟩ =
      scripts files config inputs url verbose := by
    rw [Invocation.run, hconfig]
    rfl
  rw [hrun, scripts, readLists_eq_ok hfiles 0, Outcome.andThen]
  simp only [hpage]
  exact congrArg (fun json => Outcome.mk [Json.indented json] [] none)
    (scriptsJson_of_collected hcollected)

/-- A rule for one domain that calls a scriptlet, as it is read from the first line of list 0. -/
def logCallRule : CosmeticRule where
  id := ⟨0, 0⟩
  text := "a.com#%#//scriptlet('log')".toList
  marker := ⟨.script, false⟩
  content := "//scriptlet('log')".toList
  domains := { permitted := ["a.com".toList] }

/-- Where there is one such rule, all of what is printed follows. -/
theorem run_scripts_log_call :
    Invocation.run (fun _ => .ok logCallRule.text)
        ⟨none, .scripts ["list.txt".toList] "https://a.com/".toList true⟩ =
      { out := [Json.indented (.obj [
          ("domain".toList, .str "a.com".toList),
          ("generic".toList, .arr []),
          ("specific".toList, .arr [.str (Resource.snippet {
            name := "log".toList
            args := []
            engine := ({} : Config).engine
            version := ({} : Config).version
            ruleText := logCallRule.text
            verbose := true
            domain := some "a.com".toList })])])] } := by
  obtain ⟨rules, generic, specific, hselection, hgeneric, hspecific, hrun⟩ :=
    run_scripts (fun _ => .ok logCallRule.text) none {} ["list.txt".toList] [logCallRule.text]
      "https://a.com/".toList "a.com".toList true rfl (.cons rfl .nil) (by decide) (by decide)
  obtain rfl : rules = [logCallRule] :=
    hselection.eq_singleton (by rfl) (by rfl) rfl (by decide)
  obtain rfl : generic = [] := List.forall₂_nil_left_iff.mp hgeneric
  obtain ⟨code, rest, hcode, hrest, rfl⟩ := List.forall₂_cons_left_iff.mp hspecific
  obtain rfl := List.forall₂_nil_left_iff.mp hrest
  rw [hrun]
  cases hcode with
  | verbatim hcontent => exact absurd ⟨"('log')".toList, rfl⟩ hcontent
  | snippet text call hcontent hparse =>
    have hcontent' : "//scriptlet".toList ++ "('log')".toList = "//scriptlet".toList ++ text :=
      hcontent
    obtain rfl := List.append_cancel_left hcontent'
    obtain rfl : ⟨"log".toList, []⟩ = call := Except.ok.inj hparse
    rfl

end ContentFilter.CommandLine
