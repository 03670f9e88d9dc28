import ContentFilter.Request.Action

/-!
# Decisions

A decision turns the rule that prevails for a request into an action. It never fails: without a
rule, or where the rule does not reach, nothing is done. Popup rules are settled first and touch
nothing but popups and, if they extend to every request type, pages. A redirection that cannot
be resolved leaves an ordinary blocking rule. A blocking rule reaches pages as such only if the
document is all it names.

Each decision publishes at most one event. Decisions may share a log of events, and `decideAll`
takes several decisions one after the other, each of which finds the log as the one before it
has left it.

In the engine: `RedirectResolver` and `TabRegistry` (`Host`), `Matcher::decide` (`Host.decide`),
`Matcher::apply` (`Decision.applied`), `FilteringLog` (`Decision.record`).
-/

set_option autoImplicit false

namespace ContentFilter

/-- What a decision asks the browser about. -/
structure Host where
  /-- The address to which a redirection value sends a request, if there is one. -/
  redirectUrl? : Option Text → Text → Option Text
  /-- Whether a tab has just been opened as a popup. -/
  isNewPopup : Int → Bool

/-- The outcome of a decision. -/
structure Decision where
  action : Action
  /-- The event that is published, if any. -/
  event : Option FilteringEvent
deriving DecidableEq, Inhabited

namespace Decision

/-- Nothing is done and nothing is published. -/
def none : Decision := ⟨.noAction, .none⟩

/-- The rule is applied to the request and this is published (`Matcher::apply`). -/
def applied (rule : NetworkRule) (request : Request) (action : Action) : Decision :=
  ⟨action, some ⟨rule, action, request⟩⟩

end Decision

namespace Host

/-- The redirection of a request by a rule, if the rule redirects and the target is known. -/
def redirection? (host : Host) (rule : NetworkRule) (request : Request) : Option Text :=
  if rule.has .redirect then host.redirectUrl? rule.advanced request.url else none

/-- Decide on a request under a blocking rule that is about popups. -/
def decidePopup (host : Host) (rule : NetworkRule) (request : Request) : Decision :=
  if host.isNewPopup request.tab then .applied rule request .closePopupTab
  -- A rule about popups alone names no request types, so it never reaches a page.
  else if request.isForDocument && rule.permittedTypes == .full then
    .applied rule request .showBlockingPage
  else .none

/-- Decide on a request under a blocking rule that is not about popups. -/
def decideBlocking (host : Host) (rule : NetworkRule) (request : Request) : Decision :=
  match host.redirection? rule request with
  | some url => .applied rule request (.redirect url)
  | none =>
    -- Whoever opens a page is not stopped by rules about what pages load.
    if request.isForDocument then
      if rule.permittedTypes == .single .document then .applied rule request .showBlockingPage
      else .none
    else .applied rule request .cancel

/-- Decide on a request for which a rule prevails, or none (`Matcher::decide`). -/
def decide (host : Host) (rule : Option NetworkRule) (request : Request) : Decision :=
  match rule with
  | none => .none
  | some rule =>
    if rule.allowlist then .applied rule request .noAction
    else if rule.has .popup then host.decidePopup rule request
    else host.decideBlocking rule request

end Host

/-- A call for a decision: who decides, and on what. -/
structure Call where
  host : Host
  /-- The rule that prevails for the request, if there is one. -/
  rule : Option NetworkRule
  request : Request

/-- The decision that is called for. -/
def Call.decision (c : Call) : Decision := c.host.decide c.rule c.request

/-- The log after a decision, which may have published an event. -/
def Decision.record (d : Decision) (log : List FilteringEvent) : List FilteringEvent :=
  log ++ d.event.toList

/-- Answer calls one after the other, with one log for all of them: the actions, and the log in
the end. -/
def decideAll (log : List FilteringEvent) : List Call → List Action × List FilteringEvent
  | [] => ([], log)
  | call :: rest =>
    let (actions, final) := decideAll (call.decision.record log) rest
    (call.decision.action :: actions, final)

end ContentFilter
