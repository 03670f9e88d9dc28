import ContentFilter.Proofs.Storage.FilterList
import ContentFilter.Script.Sharing

/-!
# Coherence of the kept scripts

Scripts are kept under the identity of their rule, and a reload gives the same identities to
other rules. Clearing the kept scripts after a reload is meant to make up for that. Here it is
settled what it achieves, for any number of parties and any order of their steps.

The invariant is `Coherent`: under every identity that script is kept which was made last since
the last clearing (`lastMade`), and every script was made from a rule whose own it is. So a
returned script can only be another rule's if it was reused, and then it is exactly if the rule
it is returned for builds another one than the rule it was made from.

That can happen. A collection that outlasts a reload keeps scripts of the old storage after the
clearing, and the next collection finds them there (`log_run_straddling`).
-/

set_option autoImplicit false

namespace ContentFilter

/-! ## What a rule builds -/

namespace Materializer

variable {m : Materializer}

/-- A script is a rule's own if building it from the rule gives it, for some domain. -/
def Owns (m : Materializer) (rule : CosmeticRule) (script : MaterializedScript) : Prop :=
  ∃ domain calls, m.build rule domain = .ok (script, calls)

/-- Two rules have the same script for a domain. -/
def BuildsAlike (m : Materializer) (rule writer : CosmeticRule) (domain : Option Text) : Prop :=
  (m.build rule domain).map (·.1) = (m.build writer domain).map (·.1)

/-- The domain that a script names is all that building it depends on besides the rule. -/
theorem build_domain {rule : CosmeticRule} {domain : Option Text} {script : MaterializedScript}
    {calls : List ScriptletInvocation} (h : m.build rule domain = .ok (script, calls)) :
    m.build rule script.domain = .ok (script, calls) := by
  rw [build] at h ⊢
  cases hcall : rule.call? with
  | none =>
    -- A script that the rule holds itself is the same for every domain.
    rw [hcall] at h
    exact h
  | some call =>
    -- The script of a scriptlet names the domain that it was built for.
    rw [hcall] at h
    simp only [] at h ⊢
    cases hparse : ScriptletCall.parse (.whole call) with
    | error e =>
      rw [hparse] at h
      exact nomatch h
    | ok call =>
      rw [hparse] at h
      obtain ⟨rfl, rfl⟩ := Prod.mk.inj (Except.ok.inj h)
      rfl

/-- A script is a rule's own exactly if building it for the domain that it names gives it. -/
theorem owns_iff {rule : CosmeticRule} {script : MaterializedScript} :
    m.Owns rule script ↔ (m.build rule script.domain).map (·.1) = .ok script := by
  constructor
  · rintro ⟨domain, calls, h⟩
    rw [build_domain h]
    rfl
  · intro h
    cases hbuild : m.build rule script.domain with
    | error e =>
      rw [hbuild] at h
      exact nomatch h
    | ok built =>
      rw [hbuild] at h
      obtain rfl : built.1 = script := Except.ok.inj h
      exact ⟨_, built.2, hbuild⟩

/-- A script that is one rule's own is another's own exactly if both build alike. -/
theorem owns_iff_buildsAlike {rule writer : CosmeticRule} {script : MaterializedScript}
    (h : m.Owns writer script) : m.Owns rule script ↔ m.BuildsAlike rule writer script.domain := by
  rw [BuildsAlike, owns_iff.mp h, owns_iff]

/-- What serves again is kept. -/
theorem get?_of_kept? {cache : ScriptCache} {rule : CosmeticRule} {domain : Option Text}
    {script : MaterializedScript} (h : kept? cache rule domain = some script) :
    cache.get? rule.id = some script := by
  rw [kept?] at h
  cases hcall : rule.call? with
  | none =>
    rw [hcall] at h
    exact h
  | some call =>
    rw [hcall] at h
    exact (Option.filter_eq_some_iff.mp h).1

end Materializer

namespace Sharing

variable {m : Materializer}

/-! ## One step -/

/-- What a step of a party can come to. -/
inductive Step (m : Materializer) (s : State) (party : Nat) : Action → State → Prop where
  | replace (new : Storage) (hphase : s.phase party = .idle) :
      Step m s party (.replace new) ({ s with storage := ⟨new⟩ }.goTo party .reloading)
  | clear (hphase : s.phase party = .reloading) :
      Step m s party .clear
        ({ s with cache := s.cache.clear, log := .cleared :: s.log }.goTo party .idle)
  | snapshot (hphase : s.phase party = .idle) :
      Step m s party .snapshot (s.goTo party (.collecting s.storage.current))
  | reuse (snapshot : Storage) (rule : CosmeticRule) (page : Option Page)
      (script : MaterializedScript) (hphase : s.phase party = .collecting snapshot)
      (hmem : rule ∈ snapshot.cosmeticRules) (hkept : s.cache.get? rule.id = some script) :
      Step m s party (.look rule page) { s with log := .reused rule script :: s.log }
  | make (snapshot : Storage) (rule : CosmeticRule) (page : Option Page)
      (script : MaterializedScript) (hphase : s.phase party = .collecting snapshot)
      (hmem : rule ∈ snapshot.cosmeticRules) (howns : m.Owns rule script) :
      Step m s party (.look rule page) (s.goTo party (.making snapshot rule script))
  | keep (snapshot : Storage) (rule : CosmeticRule) (script : MaterializedScript)
      (hphase : s.phase party = .making snapshot rule script) :
      Step m s party .keep
        ({ s with cache := s.cache.insert rule.id script, log := .made rule script :: s.log }.goTo
          party (.collecting snapshot))
  | finish (snapshot : Storage) (hphase : s.phase party = .collecting snapshot) :
      Step m s party .finish (s.goTo party .idle)
  | nothing (action : Action) : Step m s party action s

/-- Looking for a script reuses a kept one, begins to make one, or fails. -/
theorem State.look_spec {s : State} {party : Nat} {snapshot : Storage} {rule : CosmeticRule}
    {page : Option Page} (hphase : s.phase party = .collecting snapshot)
    (hmem : rule ∈ snapshot.cosmeticRules) :
    Step m s party (.look rule page) (s.look m party snapshot rule page) := by
  rw [State.look]
  cases hkept : Materializer.kept? s.cache rule (page.map (·.domain)) with
  | some script => exact .reuse _ _ _ _ hphase hmem (Materializer.get?_of_kept? hkept)
  | none =>
    cases hbuild : m.build rule (page.map (·.domain)) with
    | ok built => exact .make _ _ _ _ hphase hmem ⟨_, built.2, hbuild⟩
    | error e => exact .nothing _

/-- What every step of a party comes to. -/
theorem State.step_spec (s : State) (party : Nat) (action : Action) :
    Step m s party action (s.step m party action) := by
  unfold State.step
  -- The cases are those of the step function, in its order.
  split
  case h_1 new hphase => exact .replace new hphase
  case h_2 hphase => exact .clear hphase
  case h_3 hphase => exact .snapshot hphase
  case h_4 snapshot rule page hphase =>
    by_cases hmem : rule ∈ snapshot.cosmeticRules ∧ rule.marker.isScript = true
    · rw [if_pos hmem]
      exact look_spec hphase hmem.1
    · rw [if_neg hmem]
      exact .nothing _
  case h_5 snapshot rule script hphase => exact .keep _ _ _ hphase
  case h_6 snapshot hphase => exact .finish _ hphase
  case h_7 => exact .nothing _

/-- A party that is not interrupted between looking and keeping does what `materialize` does: the
script is returned, and the kept scripts are those it leaves. -/
theorem State.run_look_keep {s : State} {party : Nat} {snapshot : Storage} {rule : CosmeticRule}
    {page : Option Page} {made : Materialization} (hphase : s.phase party = .collecting snapshot)
    (hrule : rule ∈ snapshot.cosmeticRules ∧ rule.marker.isScript = true)
    (hmade : m.materialize s.cache rule page = .ok made) :
    ∃ o, o.returned? = some (rule, made.script) ∧
      (s.run m [(party, .look rule page), (party, .keep)]).log = o :: s.log ∧
      (s.run m [(party, .look rule page), (party, .keep)]).cache = made.cache := by
  have hlook : s.step m party (.look rule page) = s.look m party snapshot rule page := by
    simp only [State.step, hphase, if_pos hrule]
  rw [State.run, List.foldl_cons, List.foldl_cons, List.foldl_nil]
  simp only [hlook]
  rw [Materializer.materialize] at hmade
  cases hkept : Materializer.kept? s.cache rule (page.map (·.domain)) with
  | some script =>
    simp only [hkept] at hmade
    obtain rfl := Except.ok.inj hmade
    refine ⟨.reused rule script, rfl, ?_⟩
    simp only [State.look, hkept, State.step, hphase, and_self]
  | none =>
    simp only [hkept] at hmade
    cases hbuild : m.build rule (page.map (·.domain)) with
    | error e =>
      rw [hbuild] at hmade
      exact nomatch hmade
    | ok built =>
      rw [hbuild] at hmade
      obtain rfl := Except.ok.inj hmade
      refine ⟨.made rule built.1, rfl, ?_⟩
      simp [State.look, hkept, hbuild, State.step, State.goTo]

/-! ## What is kept -/

/-- The script that was made last under an identity since the last clearing, behind the rule that
it was made from. -/
def lastMade (id : RuleId) : List Occurrence → Option (CosmeticRule × MaterializedScript)
  | [] => none
  | .cleared :: _ => none
  | .made rule script :: earlier =>
    if rule.id = id then some (rule, script) else lastMade id earlier
  | .reused _ _ :: earlier => lastMade id earlier

/-- The script made last under an identity was made, from a rule of that identity. -/
theorem mem_of_lastMade {id : RuleId} {log : List Occurrence} {writer : CosmeticRule}
    {script : MaterializedScript} (h : lastMade id log = some (writer, script)) :
    .made writer script ∈ log ∧ writer.id = id := by
  induction log with
  | nil => exact nomatch h
  | cons o earlier ih =>
    cases o with
    | cleared => exact nomatch h
    | reused rule kept => exact ⟨List.mem_cons_of_mem _ (ih h).1, (ih h).2⟩
    | made rule kept =>
      rw [lastMade] at h
      by_cases hid : rule.id = id
      · rw [if_pos hid, Option.some.injEq, Prod.mk.injEq] at h
        obtain ⟨rfl, rfl⟩ := h
        exact ⟨List.mem_cons_self, hid⟩
      · rw [if_neg hid] at h
        exact ⟨List.mem_cons_of_mem _ (ih h).1, (ih h).2⟩

/-- What holds in every state: the kept scripts are those made last, every script was made from a
rule of its own, and every script that was reused was kept at the time. -/
structure Coherent (m : Materializer) (s : State) : Prop where
  cache : ∀ id, s.cache.get? id = (lastMade id s.log).map (·.2)
  made : ∀ rule script, .made rule script ∈ s.log → m.Owns rule script
  making : ∀ party snapshot rule script, s.phase party = .making snapshot rule script →
    m.Owns rule script
  reused : ∀ later earlier rule script, s.log = later ++ .reused rule script :: earlier →
    ∃ writer, lastMade rule.id earlier = some (writer, script)

theorem coherent_start (storage : Storage) : Coherent m (.start storage) where
  cache id := by
    simp [State.start, ScriptCache.get?, lastMade]
  made _ _ h := nomatch h
  making _ _ _ _ h := nomatch h
  reused later earlier rule script h := by
    rw [State.start] at h
    exact absurd h (by simp)

theorem State.phase_goTo (s : State) (party other : Nat) (next : Phase) :
    (s.goTo party next).phase other = if other = party then next else s.phase other := rfl

/-- Getting on to a phase changes nothing else. A script that is to be kept has to be the rule's
own. -/
theorem Coherent.goTo {s : State} (h : Coherent m s) {party : Nat} {next : Phase}
    (hnext : ∀ snapshot rule script, next = .making snapshot rule script → m.Owns rule script) :
    Coherent m (s.goTo party next) where
  cache := h.cache
  made := h.made
  making other snapshot rule script hphase := by
    rw [State.phase_goTo] at hphase
    by_cases hother : other = party
    · rw [if_pos hother] at hphase
      exact hnext _ _ _ hphase
    · rw [if_neg hother] at hphase
      exact h.making _ _ _ _ hphase
  reused := h.reused

/-- Clearing the kept scripts keeps a state coherent. -/
theorem Coherent.clear {s : State} (h : Coherent m s) :
    Coherent m { s with cache := s.cache.clear, log := .cleared :: s.log } where
  cache id := ScriptCache.get?_clear s.cache id
  made rule script hmade := h.made _ _ (List.mem_of_ne_of_mem (by simp) hmade)
  making := h.making
  reused later earlier rule script hlog := by
    rcases List.cons_eq_append_iff.mp hlog with ⟨-, hlog⟩ | ⟨later', -, hlog⟩
    · exact nomatch hlog
    · exact h.reused _ _ _ _ hlog

/-- A script is reused for having been made last under the identity of the rule. -/
theorem Coherent.reuse {s : State} (h : Coherent m s) {rule : CosmeticRule}
    {script : MaterializedScript} (hkept : s.cache.get? rule.id = some script) :
    Coherent m { s with log := .reused rule script :: s.log } where
  cache := h.cache
  made writer kept hmade := h.made _ _ (List.mem_of_ne_of_mem (by simp) hmade)
  making := h.making
  reused later earlier rule' script' hlog := by
    rcases List.cons_eq_append_iff.mp hlog with ⟨-, hlog⟩ | ⟨later', -, hlog⟩
    · -- The occurrence is the new one, and everything before it is the old log.
      obtain ⟨hoccurrence, rfl⟩ := List.cons.inj hlog
      obtain ⟨rfl, rfl⟩ := Occurrence.reused.inj hoccurrence
      rw [h.cache] at hkept
      obtain ⟨⟨writer, kept⟩, hlast, rfl⟩ := Option.map_eq_some_iff.mp hkept
      exact ⟨writer, hlast⟩
    · exact h.reused _ _ _ _ hlog

/-- Keeping a script of a rule's own keeps a state coherent. -/
theorem Coherent.keep {s : State} (h : Coherent m s) {rule : CosmeticRule}
    {script : MaterializedScript} (howns : m.Owns rule script) :
    Coherent m { s with
      cache := s.cache.insert rule.id script
      log := .made rule script :: s.log } where
  cache id := by
    show (s.cache.insert rule.id script).get? id = _
    rw [ScriptCache.get?_insert, lastMade]
    by_cases hid : rule.id = id
    · rw [if_pos hid, if_pos hid, Option.map_some]
    · rw [if_neg hid, if_neg hid, h.cache]
  made writer kept hmade := by
    rcases List.mem_cons.mp hmade with hmade | hmade
    · obtain ⟨rfl, rfl⟩ := Occurrence.made.inj hmade
      exact howns
    · exact h.made _ _ hmade
  making := h.making
  reused later earlier rule' script' hlog := by
    rcases List.cons_eq_append_iff.mp hlog with ⟨-, hlog⟩ | ⟨later', -, hlog⟩
    · exact nomatch hlog
    · exact h.reused _ _ _ _ hlog

/-- Every step keeps a state coherent. -/
theorem Coherent.step {s s' : State} {party : Nat} {action : Action} (h : Coherent m s)
    (hstep : Step m s party action s') : Coherent m s' := by
  -- In these two phases no script waits to be kept.
  have hidle : ∀ snapshot rule script, Phase.idle = .making snapshot rule script →
      m.Owns rule script := fun _ _ _ hphase => nomatch hphase
  have hcollecting : ∀ storage snapshot rule script,
      Phase.collecting storage = .making snapshot rule script → m.Owns rule script :=
    fun _ _ _ _ hphase => nomatch hphase
  cases hstep with
  | replace new hphase =>
    have hreplaced : Coherent m { s with storage := ⟨new⟩ } := ⟨h.cache, h.made, h.making, h.reused⟩
    exact hreplaced.goTo fun _ _ _ hphase => nomatch hphase
  | clear hphase => exact h.clear.goTo hidle
  | snapshot hphase => exact h.goTo (hcollecting _)
  | reuse snapshot rule page script hphase hmem hkept => exact h.reuse hkept
  | make snapshot rule page script hphase hmem howns =>
    refine h.goTo fun _ _ _ hmaking => ?_
    obtain ⟨-, rfl, rfl⟩ := Phase.making.inj hmaking
    exact howns
  | keep snapshot rule script hphase =>
    exact (h.keep (h.making _ _ _ _ hphase)).goTo (hcollecting _)
  | finish snapshot hphase => exact h.goTo hidle
  | nothing => exact h

/-- Every run keeps a state coherent. -/
theorem Coherent.run {s : State} (h : Coherent m s) (schedule : List (Nat × Action)) :
    Coherent m (s.run m schedule) := by
  induction schedule generalizing s with
  | nil => exact h
  | cons move schedule ih => exact ih (h.step (s.step_spec move.1 move.2))

/-! ## What is returned -/

/-- A script was returned for a rule. -/
def Returned (log : List Occurrence) (rule : CosmeticRule) (script : MaterializedScript) : Prop :=
  ∃ o ∈ log, o.returned? = some (rule, script)

/-- A script is returned when it is made and when it is reused. -/
theorem returned_iff {log : List Occurrence} {rule : CosmeticRule} {script : MaterializedScript} :
    Returned log rule script ↔ .made rule script ∈ log ∨ .reused rule script ∈ log := by
  constructor
  · rintro ⟨o, ho, hreturned⟩
    cases o with
    | cleared => exact nomatch hreturned
    | made rule' script' =>
      obtain ⟨rfl, rfl⟩ := Prod.mk.inj (Option.some.inj hreturned)
      exact .inl ho
    | reused rule' script' =>
      obtain ⟨rfl, rfl⟩ := Prod.mk.inj (Option.some.inj hreturned)
      exact .inr ho
  · rintro (h | h)
    · exact ⟨_, h, rfl⟩
    · exact ⟨_, h, rfl⟩

/-- **Coherence.** Whatever the parties do and in whatever order, all returned scripts are the
rules' own exactly if none is reused for a rule that builds another one than the rule that it was
last made from, since the last clearing and under the same identity. -/
theorem forall_returned_owns_iff (m : Materializer) (storage : Storage)
    (schedule : List (Nat × Action)) :
    (∀ rule script, Returned ((State.start storage).run m schedule).log rule script →
      m.Owns rule script) ↔
    ∀ later earlier rule script writer kept,
      ((State.start storage).run m schedule).log = later ++ .reused rule script :: earlier →
      lastMade rule.id earlier = some (writer, kept) →
      m.BuildsAlike rule writer script.domain := by
  have hcoherent := (coherent_start (m := m) storage).run schedule
  constructor
  · intro howns later earlier rule script writer kept hlog hlast
    -- The last script made is the one reused, and it is the own one of its writer.
    obtain ⟨writer', hlast'⟩ := hcoherent.reused _ _ _ _ hlog
    rw [hlast, Option.some.injEq, Prod.mk.injEq] at hlast'
    obtain ⟨rfl, rfl⟩ := hlast'
    have hmade : .made writer kept ∈ later ++ .reused rule kept :: earlier :=
      List.mem_append_right _ (List.mem_cons_of_mem _ (mem_of_lastMade hlast).1)
    rw [← hlog] at hmade
    rw [← Materializer.owns_iff_buildsAlike (hcoherent.made _ _ hmade)]
    refine howns rule kept (returned_iff.mpr (.inr ?_))
    rw [hlog]
    exact List.mem_append_right _ List.mem_cons_self
  · intro halike rule script hreturned
    rcases returned_iff.mp hreturned with hmade | hreused
    · exact hcoherent.made _ _ hmade
    · -- It was kept by someone, for whose rule it is the own one.
      obtain ⟨later, earlier, hlog⟩ := List.append_of_mem hreused
      obtain ⟨writer, hlast⟩ := hcoherent.reused _ _ _ _ hlog
      have hmade : .made writer script ∈ later ++ .reused rule script :: earlier :=
        List.mem_append_right _ (List.mem_cons_of_mem _ (mem_of_lastMade hlast).1)
      rw [← hlog] at hmade
      rw [Materializer.owns_iff_buildsAlike (hcoherent.made _ _ hmade)]
      exact halike _ _ _ _ _ _ hlog hlast

/-! ## A collection that outlasts a reload -/

/-- Party 0 collects for an old rule while party 1 reloads, and then party 2 for a new one. -/
def straddling (after : Storage) (old new : CosmeticRule) : List (Nat × Action) :=
  [(0, .snapshot), (1, .replace after), (1, .clear), (0, .look old none), (0, .keep), (0, .finish),
    (2, .snapshot), (2, .look new none)]

/-- Two rules of one identity that hold their scripts themselves: the script of the old one is
returned for the new one. -/
theorem log_run_straddling (m : Materializer) {before after : Storage} {old new : CosmeticRule}
    (hold : old ∈ before.cosmeticRules ∧ old.marker.isScript = true)
    (hnew : new ∈ after.cosmeticRules ∧ new.marker.isScript = true)
    (hcall : old.call? = none) (hcall' : new.call? = none) (hid : old.id = new.id) :
    ((State.start before).run m (straddling after old new)).log =
      [.reused new ⟨old.content, old.content, none⟩, .made old ⟨old.content, old.content, none⟩,
        .cleared] := by
  simp [straddling, State.run, State.step, State.look, State.goTo, State.start,
    SharedStorage.snapshot, SharedStorage.replace, hold, hnew, Materializer.kept?,
    Materializer.build, hcall, hcall', ScriptCache.get?_clear, ScriptCache.get?_insert, hid]

/-- A storage with one cosmetic rule. -/
def single (rule : CosmeticRule) : Storage :=
  ({} : Storage).add (({ id := rule.id.list } : FilterList).insert (.cosmetic rule))

theorem cosmeticRules_single (rule : CosmeticRule) : (single rule).cosmeticRules = [rule] := by
  have hrules : (({ id := rule.id.list } : FilterList).insert (.cosmetic rule)).rules =
      [.cosmetic rule] :=
    FilterList.rules_insert_of_eq_none (FilterList.get?_empty _ _)
  simp [single, Storage.add, FilterList.insertSorted, Storage.cosmeticRules, Storage.rules,
    hrules, Rule.cosmetic?]

/-- A rule with the script that it holds itself. -/
def scriptRule (script : Text) : CosmeticRule where
  id := ⟨1, 0⟩
  text := "#%#".toList ++ script
  marker := ⟨.script, false⟩
  content := script

/-- Not every returned script is the rule's own. -/
theorem exists_returned_not_owns :
    ¬ ∀ (m : Materializer) (storage : Storage) (schedule : List (Nat × Action))
      (rule : CosmeticRule) (script : MaterializedScript),
      Returned ((State.start storage).run m schedule).log rule script → m.Owns rule script := by
  intro h
  have hold : scriptRule "a".toList ∈ (single (scriptRule "a".toList)).cosmeticRules ∧
      (scriptRule "a".toList).marker.isScript = true := by
    rw [cosmeticRules_single]
    decide
  have hnew : scriptRule "b".toList ∈ (single (scriptRule "b".toList)).cosmeticRules ∧
      (scriptRule "b".toList).marker.isScript = true := by
    rw [cosmeticRules_single]
    decide
  have hlog := log_run_straddling ⟨fun _ => [], [], []⟩ hold hnew (by decide) (by decide) rfl
  have hreturned := returned_iff.mpr (.inr (hlog.symm ▸ List.mem_cons_self))
  have howns := h _ _ _ _ _ hreturned
  have hscript : (⟨"b".toList, "b".toList, none⟩ : MaterializedScript) =
      ⟨"a".toList, "a".toList, none⟩ := Except.ok.inj (Materializer.owns_iff.mp howns)
  exact absurd hscript (by decide)

end Sharing

end ContentFilter
