import ContentFilter.Network.Rule

/-!
# Actions and events

What is done about a request is an `Action`. When a rule is applied to a request, which
includes an exception that lets it through, a `FilteringEvent` says so.

In the engine: `RequestContext` (`Request`), `is_document_request` (`isForDocument`), `Action`,
`is_enforcement` (`isEnforcement`), `FilteringEvent`.
-/

set_option autoImplicit false

namespace ContentFilter

/-- A request on which a decision is taken. -/
structure Request where
  /-- The address asked for. -/
  url : Text
  /-- The address of the frame that asks. -/
  referrer : Text
  types : RequestTypes
  /-- The type under which the request is reported: that of its types, unless another is given. -/
  reportedType : RequestType := types.reported
  /-- The tab in which the request arises. -/
  tab : Int
  /-- The identity under which the request is logged. -/
  event : Text
deriving DecidableEq, Inhabited

namespace Request

/-- Whether the request is for a page as such. -/
def isForDocument (r : Request) : Bool := r.types == .single .document

end Request

/-- What is done about a request. -/
inductive Action where
  /-- It is let through. -/
  | noAction
  | cancel
  /-- It is sent to another address. -/
  | redirect (url : Text)
  /-- The page is replaced by a notice. -/
  | showBlockingPage
  /-- The popup it arises in is closed. -/
  | closePopupTab
deriving DecidableEq, Repr, Inhabited

namespace Action

/-- Whether something has to be done (`Action::is_enforcement`). -/
def isEnforcement : Action → Bool
  | noAction => false
  | _ => true

/-- The name of an action. -/
def label : Action → Text
  | noAction => "no-action".toList
  | cancel => "cancel".toList
  | redirect _ => "redirect".toList
  | showBlockingPage => "show-blocking-page".toList
  | closePopupTab => "close-popup-tab".toList

/-- An action as it is printed: its name and the address of a redirection. -/
def toText : Action → Text
  | redirect url => label (redirect url) ++ " ".toList ++ url
  | a => a.label

end Action

/-- The application of a rule to a request. -/
structure FilteringEvent where
  rule : NetworkRule
  /-- What it led to. -/
  action : Action
  request : Request
deriving DecidableEq, Inhabited

/-- An event as a log message. -/
def FilteringEvent.message (e : FilteringEvent) : Text :=
  "[tab ".toList ++ Text.ofInt e.request.tab ++ " event ".toList ++ e.request.event
    ++ "] ".toList ++ e.action.toText ++ " ".toList ++ e.request.reportedType.title
    ++ " ".toList ++ e.request.url ++ " (frame ".toList ++ e.request.referrer
    ++ ") by rule ".toList ++ e.rule.id.toText ++ " '".toList ++ e.rule.text ++ "'".toList

end ContentFilter
