import ContentFilter.FlagSet
import ContentFilter.Text.Basic

/-!
# Request types

What a page asks for: the document itself, a frame, a script, and so on. Rules name sets of
request types; a request carries such a set too, in practice of one type.

In the engine: `RequestType`, `RequestType::from_browser_type` (`ofBrowserName`), `ContentType`
(`RequestTypes.reported`).
-/

set_option autoImplicit false

namespace ContentFilter

/-- The kinds of resource a request can be for. -/
inductive RequestType where
  | document
  | subdocument
  | script
  | stylesheet
  | object
  | image
  | xmlHttpRequest
  | media
  | font
  | websocket
  | ping
  | cspReport
  | other
deriving DecidableEq, Repr, Inhabited

namespace RequestType

/-- Every request type, in the order of their numbers. -/
def all : List RequestType :=
  [document, subdocument, script, stylesheet, object, image, xmlHttpRequest, media, font,
    websocket, ping, cspReport, other]

instance : Flag RequestType where
  count := 13
  number t := ⟨t.ctorIdx, by cases t <;> decide⟩
  member i := all.get i
  member_number t := by cases t <;> rfl
  number_member := by decide

/-- The name of a request type in a set of flags. -/
def flagName : RequestType → Text
  | document => "DOCUMENT".toList
  | subdocument => "SUBDOCUMENT".toList
  | script => "SCRIPT".toList
  | stylesheet => "STYLESHEET".toList
  | object => "OBJECT".toList
  | image => "IMAGE".toList
  | xmlHttpRequest => "XMLHTTPREQUEST".toList
  | media => "MEDIA".toList
  | font => "FONT".toList
  | websocket => "WEBSOCKET".toList
  | ping => "PING".toList
  | cspReport => "CSP_REPORT".toList
  | other => "OTHER".toList

/-- The name of a request type in events. -/
def label : RequestType → Text
  | document => "document".toList
  | subdocument => "subdocument".toList
  | script => "script".toList
  | stylesheet => "stylesheet".toList
  | object => "object".toList
  | image => "image".toList
  | xmlHttpRequest => "xml-http-request".toList
  | media => "media".toList
  | font => "font".toList
  | websocket => "websocket".toList
  | ping => "ping".toList
  | cspReport => "csp-report".toList
  | other => "other".toList

/-- The name of a request type in log messages. -/
def title : RequestType → Text
  | document => "Document".toList
  | subdocument => "Subdocument".toList
  | script => "Script".toList
  | stylesheet => "Stylesheet".toList
  | object => "Object".toList
  | image => "Image".toList
  | xmlHttpRequest => "XmlHttpRequest".toList
  | media => "Media".toList
  | font => "Font".toList
  | websocket => "Websocket".toList
  | ping => "Ping".toList
  | cspReport => "CspReport".toList
  | other => "Other".toList

/-- The names that browsers give to a request type. Every name not listed here means `other`. -/
def browserNames : RequestType → List Text
  | document => ["main_frame".toList, "document".toList]
  | subdocument => ["sub_frame".toList, "subdocument".toList]
  | stylesheet => ["stylesheet".toList]
  | script => ["script".toList]
  | image => ["image".toList, "imageset".toList]
  | font => ["font".toList]
  | object => ["object".toList, "object_subrequest".toList]
  | xmlHttpRequest => ["xmlhttprequest".toList, "xhr".toList]
  | ping => ["ping".toList, "beacon".toList]
  | cspReport => ["csp_report".toList]
  | media => ["media".toList]
  | websocket => ["websocket".toList]
  | other => []

/-- The request type that a browser calls `name` (`RequestType::from_browser_type`). -/
def ofBrowserName (name : Text) : RequestType :=
  (all.find? fun t => t.browserNames.contains name).getD other

end RequestType

/-- A set of request types. -/
abbrev RequestTypes := FlagSet RequestType

/-- The one type under which a request is reported: the first in a set of several, and `other`
for a request of no type. -/
def RequestTypes.reported (types : RequestTypes) : RequestType :=
  types.toList.head?.getD .other

end ContentFilter
