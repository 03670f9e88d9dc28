import ContentFilter.Json.Value
import ContentFilter.Request.Action

/-!
# Actions and events as JSON

In the engine: the serialized `Action`, and the records of `JsonFilteringLog`.
-/

set_option autoImplicit false

namespace ContentFilter

/-- An action as JSON: its name and, for a redirection, the address. -/
def Action.toJson (a : Action) : Json :=
  .obj (("action".toList, .str a.label) ::
    match a with
    | .redirect url => [("url".toList, .str url)]
    | _ => [])

/-- An event as JSON. -/
def FilteringEvent.toJson (e : FilteringEvent) : Json :=
  .obj [
    ("action".toList, e.action.toJson),
    ("contentType".toList, .str e.request.reportedType.label),
    ("eventId".toList, .str e.request.event),
    ("frameUrl".toList, .str e.request.referrer),
    ("requestUrl".toList, .str e.request.url),
    ("rule".toList, .obj [
      ("filterListId".toList, .int e.rule.id.list),
      ("ruleIndex".toList, .int e.rule.id.key),
      ("text".toList, .str e.rule.text)]),
    ("tabId".toList, .int e.request.tab)]

end ContentFilter
