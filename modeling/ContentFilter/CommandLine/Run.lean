import ContentFilter.CommandLine.Command
import ContentFilter.CommandLine.Files
import ContentFilter.Config.Reader
import ContentFilter.Request.Decision
import ContentFilter.Request.Matching
import ContentFilter.Request.Report
import ContentFilter.Rule.Validity
import ContentFilter.Script.Collection
import ContentFilter.Script.Resource
import ContentFilter.Storage.Loader

/-!
# Carrying out commands

A command is a function of the files: it says what is printed on the two outputs and whether it
fails. What it printed before it failed stays printed.

In the engine: `load_config` (`readConfig`), `read_list` (`readList`), `list_name` (`listName`),
`cmd_validate` (`validate`), `cmd_load` (`load`), `cmd_decide` (`decide`), `cmd_scripts`
(`scripts`).
-/

set_option autoImplicit false

namespace ContentFilter.CommandLine

/-- What a command prints and how it ends. -/
structure Outcome where
  /-- What is printed on the standard output, each with a line feed after it. -/
  out : List Text := []
  /-- What is printed on the error output, each with a line feed after it. -/
  err : List Text := []
  /-- Why the command fails, if it does. -/
  failure : Option Text := none
deriving DecidableEq, Repr, Inhabited

namespace Outcome

/-- The exit code. -/
def code (o : Outcome) : Nat := if o.failure.isSome then 1 else 0

/-- The text of some lines. -/
def printed (lines : List Text) : Text := lines.flatMap (· ++ ['\n'])

/-- All that is on the standard output. -/
def stdout (o : Outcome) : Text := printed o.out

/-- All that is on the error output; the reason of a failure comes last. -/
def stderr (o : Outcome) : Text :=
  printed (o.err ++ o.failure.toList.map ("Error: ".toList ++ ·))

/-- The outcome with a duration, in tenths of a millisecond, at the end of what is printed. -/
def timed (o : Outcome) (tenths : Nat) : Outcome :=
  { o with out := o.out.dropLast ++ (o.out.getLast?.toList.map fun line =>
      line ++ " in ".toList ++ Text.ofNat (tenths / 10) ++ ".".toList
        ++ Text.ofNat (tenths % 10) ++ "ms".toList) }

/-- The outcome of a command that fails before it prints anything. -/
def failed (reason : Text) : Outcome := { failure := some reason }

/-- Go on with a result, or fail. -/
def andThen {α : Type} (result : Except Text α) (next : α → Outcome) : Outcome :=
  match result with
  | .ok a => next a
  | .error reason => failed reason

end Outcome

/-! ## Files -/

/-- Read a filter list (`read_list`). -/
def readList (files : Files) (path : Text) : Except Text Text :=
  (files path).mapError fun e =>
    "Failed to read '".toList ++ path ++ "': ".toList ++ e.message

/-- Read a configuration; without a file it is the default one (`load_config`). -/
def readConfig (files : Files) : Option Text → Except Text Config
  | none => .ok {}
  | some path => do
    let text ← (files path).mapError fun e =>
      "Failed to read config file '".toList ++ path ++ "': ".toList ++ e.message
    (Config.parse text).mapError (·.message)

/-- The name under which a list is reported: that of its file, or all of the path if it ends with
no name. -/
def listName (path : Text) : Text := (fileName? path).getD path

/-! ## `validate` -/

/-- A rule to be judged, and where it comes from. -/
structure Entry where
  /-- The origin as it is reported. -/
  location : Text
  rule : Text
deriving DecidableEq, Repr, Inhabited

/-- The lines of a list that are not blank, with their numbers from one. -/
def listEntries (name text : Text) : List Entry :=
  ((Text.lines text).zipIdx.filter fun l => !(Text.trim Text.isWhite l.1).isEmpty).map
    fun l => ⟨name ++ ":".toList ++ Text.ofNat (l.2 + 1), l.1⟩

/-- The lines of several lists, in order. -/
def readEntries (files : Files) : List Text → Except Text (List Entry)
  | [] => .ok []
  | path :: rest => do
    let text ← readList files path
    return listEntries (listName path) text ++ (← readEntries files rest)

/-- The verdict on a rule, as JSON. -/
def verdictJson (entry : Entry) (objection : Option Text) : Json :=
  .obj [
    ("error".toList, .ofOption objection),
    ("location".toList, .str entry.location),
    ("result".toList, .bool objection.isNone),
    ("rule".toList, .str entry.rule)]

/-- The verdict on a rule that is not valid, as text. -/
def verdictText (entry : Entry) (objection : Text) : Text :=
  entry.location ++ ": ".toList ++ objection ++ "\n    ".toList ++ entry.rule

/-- Judge rules. -/
def judge (config : Config) (asJson : Bool) (entries : List Entry) : Outcome :=
  let verdicts := entries.map fun e => (e, Rule.objection? config.parser e.rule)
  let invalid := (verdicts.filter (·.2.isSome)).length
  { out :=
      if asJson then [Json.indented (.arr (verdicts.map fun v => verdictJson v.1 v.2))]
      else verdicts.filterMap (fun v => v.2.map (verdictText v.1)) ++
        ["Checked ".toList ++ Text.ofNat entries.length ++ " rules, ".toList
          ++ Text.ofNat invalid ++ " invalid".toList]
    failure :=
      if invalid = 0 then none else some (Text.ofNat invalid ++ " invalid rules".toList) }

/-- Carry out `validate` (`cmd_validate`). -/
def validate (files : Files) (config : Config) (rules inputs : List Text) (asJson : Bool) :
    Outcome :=
  if rules.isEmpty && inputs.isEmpty then .failed "No rules or input files specified".toList
  else .andThen (readEntries files inputs) fun entries =>
    judge config asJson (rules.map (⟨"arg".toList, ·⟩) ++ entries)

/-! ## `load` -/

/-- What is printed about a list that was loaded. -/
def listReport (id : Nat) (path text : Text) (verbose : Bool)
    (loaded : FilterList × List LineError) : List Text :=
  let (list, errors) := loaded
  let network := (list.rules.filter (·.network?.isSome)).length
  ["  [".toList ++ Text.ofNat id ++ "] ".toList ++ listName path,
    "      Lines:     ".toList ++ Text.ofNat (Text.lines text).length,
    "      Rules:     ".toList ++ Text.ofNat list.length ++ " (".toList ++ Text.ofNat network
      ++ " network, ".toList ++ Text.ofNat (list.length - network) ++ " cosmetic)".toList,
    "      Invalid:   ".toList ++ Text.ofNat errors.length] ++
  if verbose then
    errors.map fun e => "        line ".toList ++ Text.ofNat (e.line + 1) ++ " at ".toList
      ++ e.span.toText ++ ": ".toList ++ e.message
  else []

/-- Load lists from number `id` on: what is printed about them, and how many rules they have,
or why one cannot be read. -/
def loadLists (files : Files) (config : Config) (verbose : Bool) :
    Nat → List Text → List Text × Except Text Nat
  | _, [] => ([], .ok 0)
  | id, path :: rest =>
    match readList files path with
    | .error reason => ([], .error reason)
    | .ok text =>
      let loaded := loadList config id text
      let (reports, total) := loadLists files config verbose (id + 1) rest
      (listReport id path text verbose loaded ++ reports, total.map (loaded.1.length + ·))

/-- Carry out `load` (`cmd_load`). -/
def load (files : Files) (config : Config) (inputs : List Text) (verbose : Bool) : Outcome :=
  match loadLists files config verbose 0 inputs with
  | (reports, .error reason) => { out := reports, failure := some reason }
  | (reports, .ok total) =>
    { out := reports ++ ["Loaded ".toList ++ Text.ofNat inputs.length ++ " lists, ".toList
        ++ Text.ofNat total ++ " rules".toList] }

/-! ## `decide` -/

/-- Read a rule that must be a network rule. -/
def readNetworkRule (config : Config) (index : Nat) (text : Text) : Except Text NetworkRule :=
  let quoted := "'".toList ++ text ++ "'".toList
  match Rule.read config.parser.duplicates ⟨0, index⟩ text with
  | .ok (some (.network rule)) => .ok rule
  | .ok (some (.cosmetic _)) => .error (quoted ++ " is a cosmetic rule".toList)
  | .ok none => .error (quoted ++ " is a comment".toList)
  | .error e => .error (quoted ++ " at ".toList ++ e.span.toText ++ ": ".toList ++ e.message)

/-- Read network rules, numbered from `index` on. -/
def readNetworkRules (config : Config) : Nat → List Text → Except Text (List NetworkRule)
  | _, [] => .ok []
  | index, text :: rest => do
    let rule ← readNetworkRule config index text
    return rule :: (← readNetworkRules config (index + 1) rest)

/-- Carry out `decide` (`cmd_decide`). -/
def decide (config : Config) (rules : List Text) (options : RequestOptions) : Outcome :=
  .andThen (readNetworkRules config 0 rules) fun candidates =>
    let rule := (Matching.ofCandidates candidates []).prevailing
    let host : Host := ⟨Resource.redirectUrl?, fun _ => options.popupTab⟩
    let request : Request := {
      url := options.url
      referrer := options.referrer
      types := .single options.type
      tab := options.tab
      event := options.event }
    let decision := host.decide rule request
    { out := [Json.compact (.obj [
        ("decision".toList, decision.action.toJson),
        ("rule".toList, .ofOption (rule.map (·.text)))])]
      err := decision.event.toList.map fun e => Json.compact e.toJson }

/-! ## `scripts` -/

/-- Read lists, numbered from `id` on. -/
def readLists (files : Files) : Nat → List Text → Except Text (List (Nat × Text))
  | _, [] => .ok []
  | id, path :: rest => do
    let text ← readList files path
    return (id, text) :: (← readLists files (id + 1) rest)

/-- The scripts of a page, as JSON. -/
def scriptsJson (page : Page) (verbose : Bool) (scripts : ScriptCollection) : Json :=
  let texts := fun entries : Array ScriptEntry => Json.arr <| entries.toList.map fun e =>
    .str (if verbose then e.script.verbose else e.script.script)
  .obj [
    ("domain".toList, .str page.domain),
    ("generic".toList, texts scripts.generic),
    ("specific".toList, texts scripts.specific)]

/-- Carry out `scripts` (`cmd_scripts`). -/
def scripts (files : Files) (config : Config) (inputs : List Text) (url : Text)
    (verbose : Bool) : Outcome :=
  .andThen (readLists files 0 inputs) fun lists =>
    match Page.ofUrl? url with
    | none => .failed ("'".toList ++ url ++ "' has no host".toList)
    | some page =>
      let materializer : Materializer := ⟨Resource.snippet, config.engine, config.version⟩
      let collected := ScriptCollection.ofStorage materializer {} (loadStorage config lists).1 page
      { out := [Json.indented (scriptsJson page verbose collected)] }

/-! ## All commands -/

/-- Carry out a command. -/
def Invocation.run (files : Files) (i : Invocation) : Outcome :=
  .andThen (readConfig files i.config) fun config =>
    match i.command with
    | .validate rules inputs asJson => CommandLine.validate files config rules inputs asJson
    | .load inputs verbose => CommandLine.load files config inputs verbose
    | .decide rules request => CommandLine.decide config rules request
    | .scripts inputs url verbose => CommandLine.scripts files config inputs url verbose

end ContentFilter.CommandLine
