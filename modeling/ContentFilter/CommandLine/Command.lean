import ContentFilter.CommandLine.Option
import ContentFilter.Request.Type

/-!
# Commands

The four commands: `validate` judges rules, `load` loads lists and counts what is in them,
`decide` takes a decision on a request, and `scripts` collects the scripts of a page. Each
takes a configuration file, named before or after the command.

In the engine: `Cli` (`Invocation`), `Commands` (`Command`).
-/

set_option autoImplicit false

namespace ContentFilter.CommandLine

/-- The request of the command `decide`. -/
structure RequestOptions where
  /-- The address asked for. -/
  url : Text
  /-- The address of the frame that asks. -/
  referrer : Text
  type : RequestType
  tab : Int
  /-- Whether the tab has just been opened as a popup. -/
  popupTab : Bool
  /-- The identity under which the request is logged. -/
  event : Text
deriving DecidableEq, Repr, Inhabited

/-- A command. -/
inductive Command where
  /-- Judge rules and the lines of files. -/
  | validate (rules inputs : List Text) (asJson : Bool)
  | load (inputs : List Text) (verbose : Bool)
  /-- Decide on a request between rules. -/
  | decide (rules : List Text) (request : RequestOptions)
  /-- Collect the scripts of a page. -/
  | scripts (inputs : List Text) (url : Text) (verbose : Bool)
deriving DecidableEq, Repr, Inhabited

/-- A command with its configuration file. -/
structure Invocation where
  /-- The configuration file, if one is named. -/
  config : Option Text
  command : Command
deriving DecidableEq, Repr, Inhabited

/-! ## Options -/

/-- The configuration file. -/
def configOption : OptionSpec := ⟨"config".toList, some 'c', .single⟩

/-- Files. -/
def inputOption : OptionSpec := ⟨"input".toList, some 'i', .many⟩

/-- More output. -/
def verboseOption : OptionSpec := ⟨"verbose".toList, some 'v', .switch⟩

/-- Output as JSON. -/
def jsonOption : OptionSpec := ⟨"json".toList, none, .switch⟩

/-- Rules to decide between. -/
def ruleOption : OptionSpec := ⟨"rule".toList, some 'r', .many⟩

/-- An address. -/
def urlOption : OptionSpec := ⟨"url".toList, none, .single⟩

/-- The address of the frame that asks. -/
def referrerOption : OptionSpec := ⟨"referrer".toList, none, .single⟩

/-- What is asked for. -/
def typeOption : OptionSpec := ⟨"type".toList, none, .single⟩

/-- The tab. -/
def tabOption : OptionSpec := ⟨"tab".toList, none, .single⟩

/-- The tab is a new popup. -/
def popupTabOption : OptionSpec := ⟨"popup-tab".toList, none, .switch⟩

/-- The identity under which a request is logged. -/
def eventOption : OptionSpec := ⟨"event-id".toList, none, .single⟩

/-- The number of a tab: an integer of 32 bits. -/
def tabNumber? (t : Text) : Option Int :=
  let (negative, digits) := match t with
    | '-' :: rest => (true, rest)
    | '+' :: rest => (false, rest)
    | _ => (false, t)
  match Text.toNat? digits with
  | some n =>
    let i : Int := if negative then -n else n
    if -2147483648 ≤ i ∧ i < 2147483648 then some i else none
  | none => none

/-! ## Reading a command line -/

/-- The words of a command that knows the options `specs` besides the configuration file. -/
def commandWords (specs : List OptionSpec) (words : List Text) : Option Words :=
  Words.sort (configOption :: specs) {} words

/-- The words of a command that takes no plain words. -/
def optionWords (specs : List OptionSpec) (words : List Text) : Option Words := do
  let w ← commandWords specs words
  if w.plain.isEmpty then some w else none

/-- The values of an option that has to be given. -/
def required (w : Words) (spec : OptionSpec) : Option (List Text) :=
  let values := w.values spec.long
  if values.isEmpty then none else some values

/-- Read the command `validate`. -/
def readValidate (words : List Text) : Option (Words × Command) := do
  let w ← commandWords [inputOption, jsonOption] words
  return (w, .validate w.plain (w.values inputOption.long) (w.has jsonOption.long))

/-- Read the command `load`. -/
def readLoad (words : List Text) : Option (Words × Command) := do
  let w ← optionWords [inputOption, verboseOption] words
  return (w, .load (← required w inputOption) (w.has verboseOption.long))

/-- Read the command `decide`. -/
def readDecide (words : List Text) : Option (Words × Command) := do
  let w ← optionWords [ruleOption, urlOption, referrerOption, typeOption, tabOption,
    popupTabOption, eventOption] words
  let request : RequestOptions := {
    url := ← w.value? urlOption.long
    referrer := (w.value? referrerOption.long).getD []
    type := .ofBrowserName ((w.value? typeOption.long).getD "other".toList)
    tab := ← tabNumber? ((w.value? tabOption.long).getD "0".toList)
    popupTab := w.has popupTabOption.long
    event := (w.value? eventOption.long).getD "cli".toList }
  return (w, .decide (← required w ruleOption) request)

/-- Read the command `scripts`. -/
def readScripts (words : List Text) : Option (Words × Command) := do
  let w ← optionWords [inputOption, urlOption, verboseOption] words
  return (w, .scripts (← required w inputOption) (← w.value? urlOption.long)
    (w.has verboseOption.long))

/-- Read a command by its name. -/
def readCommand (name : Text) (words : List Text) : Option (Words × Command) :=
  if name = "validate".toList then readValidate words
  else if name = "load".toList then readLoad words
  else if name = "decide".toList then readDecide words
  else if name = "scripts".toList then readScripts words
  else none

/-- Read a command line; `none` where it is at fault. A configuration file named after the
command takes precedence over one named before it. -/
def Invocation.parse (words : List Text) : Option Invocation := do
  let (outer, name, rest) ← splitAtCommand [configOption] [] words
  let (inner, command) ← readCommand name rest
  return ⟨(inner.value? configOption.long).or (outer.value? configOption.long), command⟩

/-- The files that an invocation reads. -/
def Invocation.paths (i : Invocation) : List Text :=
  i.config.toList ++ match i.command with
    | .validate _ inputs _ => inputs
    | .load inputs _ => inputs
    | .decide _ _ => []
    | .scripts inputs _ _ => inputs

/-- Whether the time that an invocation takes is reported. -/
def Invocation.isTimed (i : Invocation) : Bool :=
  match i.command with
  | .load .. => true
  | _ => false

end ContentFilter.CommandLine
