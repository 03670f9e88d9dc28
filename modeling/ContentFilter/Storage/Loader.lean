import ContentFilter.Config
import ContentFilter.Rule.Reader
import ContentFilter.Storage.Basic

/-!
# Loading filter lists

A list is loaded line by line; the key of a rule is the number of its line, from zero. A line
that cannot be read is reported and skipped. Loading can stop after any number of chunks of
lines and go on later; how the lines are grouped into chunks has no bearing on what is loaded.

In the engine: `LineError`, `ListLoader` (`Loader`), `load_line` (`readLine`), `step`, `load_all`
(`run`), `finish`, `load_list` (`loadList`), `load_storage` (`loadStorage`).
-/

set_option autoImplicit false

namespace ContentFilter

/-- A line that could not be read. -/
structure LineError where
  /-- The number of the line, from zero. -/
  line : Nat
  span : Span
  message : Text
deriving DecidableEq, Repr, Inhabited

/-- The error of a line as it is printed. -/
def LineError.toText (e : LineError) : Text :=
  "line ".toList ++ Text.ofNat e.line ++ ": ".toList ++ e.message

/-- The keys of rules are below this bound; lines from there on are passed over. -/
def keyLimit : Nat := Nat.pow 2 32

/-- A filter list that is being loaded. -/
structure Loader where
  list : FilterList
  errors : Array LineError := #[]
  next : Nat := 0
  pending : List Text
  /-- What becomes of a modifier that is given twice. -/
  duplicates : DuplicatePolicy
  /-- How many lines are read in one step. -/
  chunkSize : Nat
  /-- Every step reads a line, as long as there are lines. -/
  chunkSize_pos : 0 < chunkSize

namespace Loader

/-- Begin to load a list. A chunk has at least one line. -/
def start (config : Config) (id : Nat) (text : Text) : Loader where
  list := { id }
  pending := Text.lines text
  duplicates := config.parser.duplicates
  chunkSize := max config.loader.chunkSize 1
  chunkSize_pos := by omega

/-- Read one line, which is the next one (`load_line`). -/
def readLine (l : Loader) (line : Text) : Loader :=
  let number := l.next
  let l := { l with next := number + 1 }
  if number < keyLimit then
    match Rule.read l.duplicates ⟨l.list.id, number⟩ line with
    | .ok (some rule) => { l with list := l.list.insert rule }
    | .ok none => l
    -- A faulty line costs no more than itself.
    | .error e => { l with errors := l.errors.push ⟨number, e.span, e.message⟩ }
  else l

/-- Read the next `n` lines, or all that are left if there are fewer. -/
def advance (l : Loader) (n : Nat) : Loader :=
  { (l.pending.take n).foldl readLine l with pending := l.pending.drop n }

/-- Read the next chunk (`ListLoader::step`). -/
def step (l : Loader) : Loader := l.advance l.chunkSize

/-- Whether lines are left. -/
def hasMore (l : Loader) : Bool := !l.pending.isEmpty

/-- What has been loaded: the rules, and the errors in line order (`ListLoader::finish`). -/
def finish (l : Loader) : FilterList × List LineError := (l.list, l.errors.toList)

/-- Read at most `n` chunks, and tell after each of them whether lines are left. -/
def steps : Nat → Loader → Loader × List Bool
  | 0, l => (l, [])
  | n + 1, l =>
    let stepped := l.step
    let (final, answers) := steps n stepped
    (final, stepped.hasMore :: answers)

/-- A step after which lines are left has read some. -/
theorem length_pending_step (l : Loader) (h : l.step.hasMore = true) :
    l.step.pending.length < l.pending.length := by
  have hpos := l.chunkSize_pos
  simp only [hasMore, step, advance, Bool.not_eq_true', List.isEmpty_eq_false_iff,
    ne_eq, List.drop_eq_nil_iff, Nat.not_le, List.length_drop] at h ⊢
  omega

/-- Read chunks until no line is left, but at least one (`ListLoader::load_all`). -/
def run (l : Loader) : Loader := if _h : l.step.hasMore then run l.step else l.step
termination_by l.pending.length
decreasing_by exact length_pending_step l _h

/-- What `hasMore` answers after each of the chunks that `run` reads. -/
def runAnswers (l : Loader) : List Bool :=
  if _h : l.step.hasMore then true :: runAnswers l.step else [false]
termination_by l.pending.length
decreasing_by exact length_pending_step l _h

end Loader

/-- Load a list (`load_list`). -/
def loadList (config : Config) (id : Nat) (text : Text) : FilterList × List LineError :=
  (Loader.start config id text).run.finish

/-- Load several lists into a storage (`load_storage`). The errors are in the order of the lists,
each with the identity of its list. -/
def loadStorage (config : Config) (lists : List (Nat × Text)) :
    Storage × List (Nat × LineError) :=
  let loaded := lists.map fun l => loadList config l.1 l.2
  (loaded.foldl (fun s l => s.add l.1) {},
    loaded.flatMap fun l => l.2.map fun e => (l.1.id, e))

end ContentFilter
