import ContentFilter.Json.Token

/-!
# JSON as it is read

The value that a text denotes, with the members of objects in the order in which they are
written, repeated ones included. It is built token by token: a state says what may come next
and which arrays and objects are still open, so nesting may be of any depth.
-/

set_option autoImplicit false

namespace ContentFilter.Json

/-- A value as it is read. -/
inductive Source where
  | null
  | bool (value : Bool)
  /-- A number; `natural` is the natural number that its digits alone denote. -/
  | number (natural : Option Nat)
  /-- A string; `text` is the text it denotes. -/
  | string (text : Option Text)
  | array (items : List Source)
  | object (members : List (Option Text × Source))
deriving Inhabited

/-- An array or an object that is not closed; what it holds so far is last one first. -/
inductive Frame where
  | array (items : List Source)
  /-- An object that awaits the value of the member `name`. -/
  | object (members : List (Option Text × Source)) (name : Option Text)

/-- What has been read, and so what may come next; `outer` holds the open arrays and objects,
innermost first. -/
inductive Progress where
  | value (outer : List Frame)
  /-- The first item of an array comes, or its end. -/
  | firstItem (outer : List Frame)
  /-- The first name of an object comes, or its end. -/
  | firstName (outer : List Frame)
  /-- A further name of an object comes. -/
  | name (members : List (Option Text × Source)) (outer : List Frame)
  | colon (members : List (Option Text × Source)) (name : Option Text) (outer : List Frame)
  | complete (value : Source) (outer : List Frame)

namespace Progress

/-- Take the first token of a value. -/
def beginValue (outer : List Frame) : Token → Option Progress
  | .openArray => some (firstItem outer)
  | .openObject => some (firstName outer)
  | .null => some (complete .null outer)
  | .bool b => some (complete (.bool b) outer)
  | .number n => some (complete (.number n) outer)
  | .string t => some (complete (.string t) outer)
  | _ => none

/-- Take the token after a complete value. -/
def continueAfter (v : Source) : List Frame → Token → Option Progress
  | .array items :: outer, .comma => some (value (.array (v :: items) :: outer))
  | .array items :: outer, .closeArray => some (complete (.array (v :: items).reverse) outer)
  | .object members n :: outer, .comma => some (name ((n, v) :: members) outer)
  | .object members n :: outer, .closeObject =>
    some (complete (.object ((n, v) :: members).reverse) outer)
  | _, _ => none

/-- Take one token. -/
def next : Progress → Token → Option Progress
  | value outer, token => beginValue outer token
  | firstItem outer, .closeArray => some (complete (.array []) outer)
  | firstItem outer, token => beginValue (.array [] :: outer) token
  | firstName outer, .closeObject => some (complete (.object []) outer)
  | firstName outer, .string n => some (colon [] n outer)
  | firstName _, _ => none
  | name members outer, .string n => some (colon members n outer)
  | name _ _, _ => none
  | colon members n outer, .colon => some (value (.object members n :: outer))
  | colon _ _ _, _ => none
  | complete v outer, token => continueAfter v outer token

/-- The value, if it is complete and nothing is open. -/
def result? : Progress → Option Source
  | complete v [] => some v
  | _ => none

end Progress

/-- Read a text that is one value. -/
def Source.parse? (t : Text) : Option Source := do
  let tokens ← tokenize [] t
  (← tokens.foldlM Progress.next (.value [])).result?

namespace Source

/-- The one member with a name: `some none` if there is none, `none` if there are several. -/
def member? (members : List (Option Text × Source)) (label : Text) : Option (Option Source) :=
  match members.filter fun m => m.1 == some label with
  | [] => some none
  | [m] => some (some m.2)
  | _ => none

/-- The values of the fields of a record, each of which may be missing. A record is an array of
the values in the order of the fields, of which trailing ones may be missing, or an object, in
which each field occurs at most once and members with other names are ignored. -/
def fields? (labels : List Text) : Source → Option (List (Option Source))
  | array items =>
    if items.length ≤ labels.length then
      some (items.map some ++ List.replicate (labels.length - items.length) none)
    else none
  | object members =>
    if members.any (·.1.isNone) then none else labels.mapM (member? members)
  | _ => none

/-- The text that the value is. -/
def text? : Source → Option Text
  | string t => t
  | _ => none

/-- The count that the value is: a natural number of at most 64 bits. -/
def count? : Source → Option Nat
  | number (some n) => if n < Nat.pow 2 64 then some n else none
  | _ => none

/-- The name that the value is: a string, or an object whose one member has the name and the
value null. -/
def tag? : Source → Option Text
  | string t => t
  | object [(t, null)] => t
  | _ => none

end Source

end ContentFilter.Json
