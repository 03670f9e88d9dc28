import ContentFilter.Request.Decision
import Mathlib.Data.List.Basic

/-!
# The decision table

`Host.decide` settles a request by tests that follow one another, and a later test is reached
only where the earlier ones have failed. Here the outcome is said without their order. Each
action that has to be enforced has a condition on the rule, the request and what the browser
answers, and nothing is done where none of the four conditions holds.

That the conditions exclude each other needs no proof of its own: wherever one of them holds the
decision is known (`decide_of_enforces`), and there is only one decision. What remains is that
nothing is decided where none holds (`decide_spec`).

The log is settled with the action. A decision publishes an event exactly where the rule makes
an exception or the action is enforced (`event_decide_eq_some_iff`), and over a run of decisions
the events stand in the log in the order of the calls, one for each of those that publish
(`decideAll_log`).
-/

set_option autoImplicit false

namespace ContentFilter

theorem Request.isForDocument_iff {request : Request} :
    request.isForDocument = true ↔ request.types = .single .document := by
  rw [isForDocument, beq_iff_eq]

namespace Host

variable {host : Host} {r : NetworkRule} {request : Request} {a : Action}

/-! ## Redirections -/

/-- No redirection is produced: the rule does not ask for one, or the browser knows no target. -/
def NoTarget (host : Host) (r : NetworkRule) (request : Request) : Prop :=
  r.has .redirect = false ∨ host.redirectUrl? r.advanced request.url = none

/-- A redirection is found if the rule asks for one and the browser knows its target. -/
theorem redirection?_eq_some_iff {url : Text} :
    host.redirection? r request = some url ↔
      r.has .redirect = true ∧ host.redirectUrl? r.advanced request.url = some url := by
  rw [redirection?]
  by_cases hredirect : r.has .redirect = true
  · rw [if_pos hredirect]
    exact ⟨fun h => ⟨hredirect, h⟩, And.right⟩
  · rw [if_neg hredirect]
    exact ⟨fun h => (nomatch h), fun h => absurd h.1 hredirect⟩

/-- No redirection is found exactly if there is no target. -/
theorem redirection?_eq_none_iff : host.redirection? r request = none ↔ host.NoTarget r request := by
  rw [redirection?, NoTarget]
  by_cases hredirect : r.has .redirect = true
  · rw [if_pos hredirect, hredirect]
    exact ⟨Or.inr, fun h => h.resolve_left (by decide)⟩
  · rw [if_neg hredirect]
    exact ⟨fun _ => .inl (Bool.eq_false_iff.mpr hredirect), fun _ => rfl⟩

/-! ## The rows -/

/-- When a request is dropped. -/
structure Cancels (host : Host) (r : NetworkRule) (request : Request) : Prop where
  blocking : r.allowlist = false
  notPopup : r.has .popup = false
  notDocument : request.types ≠ .single .document
  noTarget : host.NoTarget r request

/-- When a request is sent to another address. -/
structure RedirectsTo (host : Host) (url : Text) (r : NetworkRule) (request : Request) : Prop where
  blocking : r.allowlist = false
  notPopup : r.has .popup = false
  redirect : r.has .redirect = true
  target : host.redirectUrl? r.advanced request.url = some url

/-- When a page is replaced by a notice. A rule about popups has to extend to every request type,
any other rule to the document and nothing else. -/
structure ShowsPage (host : Host) (r : NetworkRule) (request : Request) : Prop where
  document : request.types = .single .document
  blocking : r.allowlist = false
  reaches :
    r.has .popup = true ∧ host.isNewPopup request.tab = false ∧ r.permittedTypes = .full ∨
    r.has .popup = false ∧ host.NoTarget r request ∧ r.permittedTypes = .single .document

/-- When a popup is closed. -/
structure ClosesPopup (host : Host) (r : NetworkRule) (request : Request) : Prop where
  blocking : r.allowlist = false
  popup : r.has .popup = true
  newPopup : host.isNewPopup request.tab = true

/-- The table: when a rule has an action enforced on a request. -/
def Enforces (host : Host) (r : NetworkRule) (request : Request) : Action → Prop
  | .noAction => False
  | .cancel => host.Cancels r request
  | .redirect url => host.RedirectsTo url r request
  | .showBlockingPage => host.ShowsPage r request
  | .closePopupTab => host.ClosesPopup r request

theorem Enforces.blocking (h : host.Enforces r request a) : r.allowlist = false := by
  cases a with
  | noAction => exact h.elim
  | cancel => exact Cancels.blocking h
  | redirect url => exact RedirectsTo.blocking h
  | showBlockingPage => exact ShowsPage.blocking h
  | closePopupTab => exact ClosesPopup.blocking h

/-- Every row of the table enforces something. -/
theorem Enforces.isEnforcement (h : host.Enforces r request a) : a.isEnforcement = true := by
  cases a with
  | noAction => exact h.elim
  | cancel | redirect url | showBlockingPage | closePopupTab => rfl

/-- Nothing is enforced if no row of the table applies. -/
theorem forall_not_enforces_iff :
    (∀ a, ¬ host.Enforces r request a) ↔
      ¬ host.Cancels r request ∧ (∀ url, ¬ host.RedirectsTo url r request) ∧
        ¬ host.ShowsPage r request ∧ ¬ host.ClosesPopup r request := by
  constructor
  · intro hnone
    exact ⟨hnone .cancel, fun url => hnone (.redirect url), hnone .showBlockingPage,
      hnone .closePopupTab⟩
  · rintro ⟨hcancel, hredirect, hpage, hpopup⟩ a henforces
    cases a with
    | noAction => exact henforces
    | cancel => exact hcancel henforces
    | redirect url => exact hredirect url henforces
    | showBlockingPage => exact hpage henforces
    | closePopupTab => exact hpopup henforces

/-- Where no row applies: a rule about popups meets neither a popup nor, if it extends to every
request type, a page, or another rule meets a page and is not about pages. -/
inductive PassesOver (host : Host) (r : NetworkRule) (request : Request) : Prop
  | popup (hpopup : r.has .popup = true) (hold : host.isNewPopup request.tab = false)
    (hreaches : ¬ (request.types = .single .document ∧ r.permittedTypes = .full))
  | page (hpopup : r.has .popup = false) (hdocument : request.types = .single .document)
    (hnone : host.NoTarget r request) (htypes : r.permittedTypes ≠ .single .document)

/-- Where there is a target, the rule redirects and the browser knows it. -/
theorem exists_target_of_not_noTarget (h : ¬ host.NoTarget r request) :
    r.has .redirect = true ∧ ∃ url, host.redirectUrl? r.advanced request.url = some url := by
  rw [NoTarget, not_or, Bool.not_eq_false, ← ne_eq, Option.ne_none_iff_exists'] at h
  exact h

/-- For a blocking rule nothing is enforced exactly where it passes over the request. -/
theorem forall_not_enforces_iff_passesOver (hblocking : r.allowlist = false) :
    (∀ a, ¬ host.Enforces r request a) ↔ host.PassesOver r request := by
  rw [forall_not_enforces_iff]
  constructor
  · rintro ⟨hcancel, hredirect, hpage, hpopup⟩
    by_cases habout : r.has .popup = true
    · have hold : host.isNewPopup request.tab = false := by
        by_contra hnew
        exact hpopup ⟨hblocking, habout, by simpa using hnew⟩
      refine .popup habout hold ?_
      rintro ⟨hdocument, htypes⟩
      exact hpage ⟨hdocument, hblocking, .inl ⟨habout, hold, htypes⟩⟩
    · have hnot := Bool.eq_false_iff.mpr habout
      have hnone : host.NoTarget r request := by
        by_contra htarget
        obtain ⟨hredirects, url, hurl⟩ := exists_target_of_not_noTarget htarget
        exact hredirect url ⟨hblocking, hnot, hredirects, hurl⟩
      have hdocument : request.types = .single .document := by
        by_contra hne
        exact hcancel ⟨hblocking, hnot, hne, hnone⟩
      exact .page hnot hdocument hnone fun htypes =>
        hpage ⟨hdocument, hblocking, .inr ⟨hnot, hnone, htypes⟩⟩
  · rintro (⟨habout, hold, hreaches⟩ | ⟨hnot, hdocument, hnone, htypes⟩)
    · refine ⟨fun h => ?_, fun url h => ?_, fun h => ?_, fun h => ?_⟩
      · exact Bool.eq_false_iff.mp h.notPopup habout
      · exact Bool.eq_false_iff.mp h.notPopup habout
      · rcases h.reaches with ⟨-, -, hfull⟩ | ⟨hnot, -, -⟩
        · exact hreaches ⟨h.document, hfull⟩
        · exact Bool.eq_false_iff.mp hnot habout
      · exact Bool.eq_false_iff.mp hold h.newPopup
    · refine ⟨fun h => h.notDocument hdocument, fun url h => ?_, fun h => ?_, fun h => ?_⟩
      · rcases hnone with hoff | hunknown
        · exact Bool.eq_false_iff.mp hoff h.redirect
        · exact Option.some_ne_none url (h.target.symm.trans hunknown)
      · rcases h.reaches with ⟨habout, -, -⟩ | ⟨-, -, honly⟩
        · exact Bool.eq_false_iff.mp hnot habout
        · exact htypes honly
      · exact Bool.eq_false_iff.mp hnot h.popup

/-! ## Decisions by the table -/

/-- An exception lets the request through, and this is published. -/
theorem decide_of_allowlist (h : r.allowlist = true) :
    host.decide (some r) request = .applied r request .noAction := by
  rw [decide, h, if_pos rfl]

theorem decide_of_popup (hblocking : r.allowlist = false) (hpopup : r.has .popup = true) :
    host.decide (some r) request = host.decidePopup r request := by
  rw [decide, hblocking, hpopup, if_neg (by decide), if_pos rfl]

theorem decide_of_not_popup (hblocking : r.allowlist = false) (hpopup : r.has .popup = false) :
    host.decide (some r) request = host.decideBlocking r request := by
  rw [decide, hblocking, hpopup, if_neg (by decide), if_neg (by decide)]

/-- A rule about popups either closes one, or is a notice for a page, or does nothing. -/
theorem decidePopup_spec (hblocking : r.allowlist = false) (hpopup : r.has .popup = true) :
    (∃ a, host.Enforces r request a ∧ host.decidePopup r request = .applied r request a) ∨
      host.decidePopup r request = .none := by
  rw [decidePopup]
  by_cases hnew : host.isNewPopup request.tab = true
  · rw [if_pos hnew]
    exact .inl ⟨.closePopupTab, ⟨hblocking, hpopup, hnew⟩, rfl⟩
  · rw [if_neg hnew]
    by_cases hpage : (request.isForDocument && r.permittedTypes == .full) = true
    · rw [if_pos hpage]
      rw [Bool.and_eq_true, Request.isForDocument_iff, beq_iff_eq] at hpage
      have hshows : host.ShowsPage r request :=
        ⟨hpage.1, hblocking, .inl ⟨hpopup, Bool.eq_false_iff.mpr hnew, hpage.2⟩⟩
      exact .inl ⟨.showBlockingPage, hshows, rfl⟩
    · rw [if_neg hpage]
      exact .inr rfl

/-- A blocking rule that is not about popups is applied with the action of its row, or nothing is
done. -/
theorem decideBlocking_spec (hblocking : r.allowlist = false) (hpopup : r.has .popup = false) :
    (∃ a, host.Enforces r request a ∧ host.decideBlocking r request = .applied r request a) ∨
      host.decideBlocking r request = .none := by
  rw [decideBlocking]
  cases htarget : host.redirection? r request with
  | some url =>
    obtain ⟨hredirect, hurl⟩ := redirection?_eq_some_iff.mp htarget
    exact .inl ⟨.redirect url, ⟨hblocking, hpopup, hredirect, hurl⟩, rfl⟩
  | none =>
    have hnone := redirection?_eq_none_iff.mp htarget
    simp only []
    by_cases hdocument : request.isForDocument = true
    · rw [if_pos hdocument]
      rw [Request.isForDocument_iff] at hdocument
      by_cases htypes : r.permittedTypes = .single .document
      · rw [if_pos (beq_iff_eq.mpr htypes)]
        have hshows : host.ShowsPage r request :=
          ⟨hdocument, hblocking, .inr ⟨hpopup, hnone, htypes⟩⟩
        exact .inl ⟨.showBlockingPage, hshows, rfl⟩
      · rw [if_neg (mt beq_iff_eq.mp htypes)]
        exact .inr rfl
    · rw [if_neg hdocument]
      rw [Request.isForDocument_iff] at hdocument
      exact .inl ⟨.cancel, ⟨hblocking, hpopup, hdocument, hnone⟩, rfl⟩

/-- Where a row of the table applies, it is what is decided. -/
theorem decide_of_enforces (h : host.Enforces r request a) :
    host.decide (some r) request = .applied r request a := by
  cases a with
  | noAction => exact h.elim
  | cancel =>
    have h : host.Cancels r request := h
    have hdocument : ¬ request.isForDocument = true := mt Request.isForDocument_iff.mp h.notDocument
    rw [decide_of_not_popup h.blocking h.notPopup, decideBlocking,
      redirection?_eq_none_iff.mpr h.noTarget]
    exact if_neg hdocument
  | redirect url =>
    have h : host.RedirectsTo url r request := h
    rw [decide_of_not_popup h.blocking h.notPopup, decideBlocking,
      redirection?_eq_some_iff.mpr ⟨h.redirect, h.target⟩]
  | showBlockingPage =>
    have h : host.ShowsPage r request := h
    have hdocument := Request.isForDocument_iff.mpr h.document
    rcases h.reaches with ⟨hpopup, hnew, htypes⟩ | ⟨hpopup, hnone, htypes⟩
    · rw [decide_of_popup h.blocking hpopup, decidePopup, hnew, hdocument, htypes]
      rfl
    · rw [decide_of_not_popup h.blocking hpopup, decideBlocking, redirection?_eq_none_iff.mpr hnone,
        htypes]
      exact if_pos hdocument
  | closePopupTab =>
    have h : host.ClosesPopup r request := h
    rw [decide_of_popup h.blocking h.popup, decidePopup, if_pos h.newPopup]

/-- What a decision can be. -/
inductive Decides (host : Host) (request : Request) : Option NetworkRule → Decision → Prop
  | noRule : Decides host request none .none
  | exempt (r : NetworkRule) (hallow : r.allowlist = true) :
    Decides host request (some r) (.applied r request .noAction)
  | enforce (r : NetworkRule) (a : Action) (henforces : host.Enforces r request a) :
    Decides host request (some r) (.applied r request a)
  | pass (r : NetworkRule) (hblocking : r.allowlist = false)
    (hnone : ∀ a, ¬ host.Enforces r request a) : Decides host request (some r) .none

/-- **One decision.** A rule that makes no exception has the action enforced whose row applies,
and where no row does nothing is done and nothing published. -/
theorem decide_spec (host : Host) (rule : Option NetworkRule) (request : Request) :
    host.Decides request rule (host.decide rule request) := by
  cases rule with
  | none => exact .noRule
  | some r =>
    by_cases hallow : r.allowlist = true
    · rw [decide_of_allowlist hallow]
      exact .exempt r hallow
    · have hblocking := Bool.eq_false_iff.mpr hallow
      have hspec : (∃ a, host.Enforces r request a ∧
          host.decide (some r) request = .applied r request a) ∨
            host.decide (some r) request = .none := by
        by_cases hpopup : r.has .popup = true
        · rw [decide_of_popup hblocking hpopup]
          exact decidePopup_spec hblocking hpopup
        · have hpopup := Bool.eq_false_iff.mpr hpopup
          rw [decide_of_not_popup hblocking hpopup]
          exact decideBlocking_spec hblocking hpopup
      rcases hspec with ⟨a, henforces, hdecide⟩ | hdecide
      · rw [hdecide]
        exact .enforce r a henforces
      · rw [hdecide]
        refine .pass r hblocking fun a henforces => ?_
        -- A row that applied would have published an event.
        rw [decide_of_enforces henforces] at hdecide
        exact nomatch congrArg Decision.event hdecide

/-- An action other than letting the request through is decided exactly where its row applies. -/
theorem action_decide_eq_iff {rule : Option NetworkRule} (ha : a ≠ .noAction) :
    (host.decide rule request).action = a ↔ ∃ r ∈ rule, host.Enforces r request a := by
  constructor
  · have hspec := host.decide_spec rule request
    generalize host.decide rule request = d at hspec
    intro hdecide
    cases hspec with
    | noRule | exempt r hallow | pass r hblocking hnone => exact absurd hdecide.symm ha
    | enforce r b henforces =>
      obtain rfl : b = a := hdecide
      exact ⟨r, rfl, henforces⟩
  · rintro ⟨r, rfl, henforces⟩
    rw [decide_of_enforces henforces]
    rfl

/-- Nothing is done exactly if no row applies to the rule, or there is none. -/
theorem action_decide_eq_noAction_iff {rule : Option NetworkRule} :
    (host.decide rule request).action = .noAction ↔
      ∀ r ∈ rule, ∀ a, ¬ host.Enforces r request a := by
  constructor
  · rintro hdecide r rfl a henforces
    rw [decide_of_enforces henforces] at hdecide
    have ha : a = .noAction := hdecide
    rw [ha] at henforces
    exact henforces
  · intro hnone
    by_contra hdecide
    obtain ⟨r, hr, henforces⟩ := (action_decide_eq_iff hdecide).mp rfl
    exact hnone r hr _ henforces

/-- A rule that makes no exception does nothing exactly where it passes over a request. -/
theorem action_decide_some_eq_noAction_iff (hblocking : r.allowlist = false) :
    (host.decide (some r) request).action = .noAction ↔ host.PassesOver r request := by
  rw [action_decide_eq_noAction_iff, ← forall_not_enforces_iff_passesOver hblocking]
  constructor
  · intro hnone
    exact hnone r rfl
  · rintro hnone r' hr'
    obtain rfl := Option.some.inj hr'
    exact hnone

/-- An event is published exactly where the rule makes an exception or the action is enforced. It
carries the rule, the action and the request. -/
theorem event_decide_eq_some_iff {rule : Option NetworkRule} {e : FilteringEvent} :
    (host.decide rule request).event = some e ↔
      ∃ r ∈ rule, (r.allowlist = true ∨ (host.decide rule request).action.isEnforcement = true) ∧
        e = ⟨r, (host.decide rule request).action, request⟩ := by
  have hspec := host.decide_spec rule request
  generalize host.decide rule request = d at hspec
  cases hspec with
  | noRule =>
    refine ⟨fun h => (nomatch h), ?_⟩
    rintro ⟨r, hr, -⟩
    exact nomatch hr
  | exempt r hallow =>
    constructor
    · intro h
      exact ⟨r, rfl, .inl hallow, (Option.some.inj h).symm⟩
    · rintro ⟨r', hr', -, rfl⟩
      obtain rfl := Option.some.inj hr'
      rfl
  | enforce r a henforces =>
    constructor
    · intro h
      exact ⟨r, rfl, .inr henforces.isEnforcement, (Option.some.inj h).symm⟩
    · rintro ⟨r', hr', -, rfl⟩
      obtain rfl := Option.some.inj hr'
      rfl
  | pass r hblocking hnone =>
    refine ⟨fun h => (nomatch h), ?_⟩
    rintro ⟨r', hr', hcondition, -⟩
    obtain rfl := Option.some.inj hr'
    rw [hblocking] at hcondition
    exact hcondition.elim (fun h => nomatch h) (fun h => nomatch h)

end Host

/-! ## The log -/

/-- A decision is published under a rule: the rule makes an exception, or the action is
enforced. -/
def Call.Publishes (call : Call) (r : NetworkRule) : Prop :=
  r ∈ call.rule ∧ (r.allowlist = true ∨ call.decision.action.isEnforcement = true)

/-- The events of calls: in the order of the calls, one for each call that publishes, with the
rule, the action and the request of the call. -/
inductive Logged : List Call → List FilteringEvent → Prop
  | nil : Logged [] []
  | published {call : Call} {r : NetworkRule} {calls : List Call} {events : List FilteringEvent}
    (hpublishes : call.Publishes r) (hrest : Logged calls events) :
    Logged (call :: calls) (⟨r, call.decision.action, call.request⟩ :: events)
  | silent {call : Call} {calls : List Call} {events : List FilteringEvent}
    (hsilent : ∀ r, ¬ call.Publishes r) (hrest : Logged calls events) :
    Logged (call :: calls) events

/-- An event is published exactly by the calls of which the table says so, with what was decided. -/
theorem Call.event_eq_some_iff {call : Call} {e : FilteringEvent} :
    call.decision.event = some e ↔
      ∃ r, call.Publishes r ∧ e = ⟨r, call.decision.action, call.request⟩ := by
  rw [Call.decision, Host.event_decide_eq_some_iff]
  exact exists_congr fun r => and_assoc.symm

/-- **The step.** What one more decision adds to the log. -/
theorem Logged.cons (call : Call) {calls : List Call} {events : List FilteringEvent}
    (h : Logged calls events) : Logged (call :: calls) (call.decision.event.toList ++ events) := by
  cases hevent : call.decision.event with
  | none =>
    refine .silent (fun r hpublishes => ?_) h
    rw [Call.event_eq_some_iff.mpr ⟨r, hpublishes, rfl⟩] at hevent
    exact nomatch hevent
  | some e =>
    obtain ⟨r, hpublishes, rfl⟩ := Call.event_eq_some_iff.mp hevent
    exact .published hpublishes h

/-- **The run.** -/
theorem decideAll_log (log : List FilteringEvent) (calls : List Call) :
    ∃ events, Logged calls events ∧ (decideAll log calls).2 = log ++ events := by
  -- On the calls to come, for whatever the log holds by now.
  induction calls generalizing log with
  | nil => exact ⟨[], .nil, (List.append_nil log).symm⟩
  | cons call calls ih =>
    obtain ⟨events, hlogged, hfinal⟩ := ih (call.decision.record log)
    refine ⟨call.decision.event.toList ++ events, hlogged.cons call, ?_⟩
    rw [← List.append_assoc]
    exact hfinal

/-- The actions of calls are those decided call by call; the log has no bearing on them. -/
theorem decideAll_actions (log : List FilteringEvent) (calls : List Call) :
    (decideAll log calls).1 = calls.map (·.decision.action) := by
  induction calls generalizing log with
  | nil => rfl
  | cons call calls ih => exact congrArg (call.decision.action :: ·) (ih _)

/-- **Decision table and audit trail.** For every rule or none, every request and whatever the
browser answers, each action is returned exactly where its row of the table applies, and nothing
is done where none applies. Calls that share a log return the actions of their own decisions, and
what they add to the log is one event for each call whose rule makes an exception or whose action
is enforced, in the order of the calls. -/
theorem decision_table_and_log :
    (∀ (host : Host) (rule : Option NetworkRule) (request : Request),
      ((host.decide rule request).action = .cancel ↔ ∃ r ∈ rule, host.Cancels r request) ∧
      (∀ url, (host.decide rule request).action = .redirect url ↔
        ∃ r ∈ rule, host.RedirectsTo url r request) ∧
      ((host.decide rule request).action = .showBlockingPage ↔
        ∃ r ∈ rule, host.ShowsPage r request) ∧
      ((host.decide rule request).action = .closePopupTab ↔
        ∃ r ∈ rule, host.ClosesPopup r request) ∧
      ((host.decide rule request).action = .noAction ↔
        ∀ r ∈ rule, ¬ host.Cancels r request ∧ (∀ url, ¬ host.RedirectsTo url r request) ∧
          ¬ host.ShowsPage r request ∧ ¬ host.ClosesPopup r request)) ∧
    ∀ (log : List FilteringEvent) (calls : List Call),
      (decideAll log calls).1 = calls.map (·.decision.action) ∧
      ∃ events, Logged calls events ∧ (decideAll log calls).2 = log ++ events := by
  refine ⟨fun host rule request => ⟨?_, fun url => ?_, ?_, ?_, ?_⟩, fun log calls =>
    ⟨decideAll_actions log calls, decideAll_log log calls⟩⟩
  · exact Host.action_decide_eq_iff (by decide)
  · exact Host.action_decide_eq_iff (fun h => nomatch h)
  · exact Host.action_decide_eq_iff (by decide)
  · exact Host.action_decide_eq_iff (by decide)
  · rw [Host.action_decide_eq_noAction_iff]
    exact forall₂_congr fun r _ => Host.forall_not_enforces_iff

end ContentFilter
