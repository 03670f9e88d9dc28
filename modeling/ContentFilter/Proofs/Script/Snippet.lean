import ContentFilter.Proofs.Json.Value
import ContentFilter.Script.Resource
import Mathlib.Data.List.Basic

/-!
# Snippets keep their call

A snippet puts texts that may hold anything into fixed text that has quotes, commas and brackets of
its own. Here a snippet is read back: the fixed text is matched, and where a value was put in, the
reader of values reads it, which tells it alone where the value ends. What is read is the call that
was written, so no text can end its literal or change what stands around it, and two snippets are
equal only if their calls are.

How values are printed does not matter, as long as they are read back (`Json.IsReadBack`). What is
said of a snippet is said of every such printer, and then of the one that is used.
-/

set_option autoImplicit false

namespace ContentFilter.Resource

/-! ## What a snippet says -/

/-- The origin of a call. -/
structure Origin where
  domain : Option Text
  engine : Text
  ruleText : Text
  version : Text
deriving DecidableEq, Repr

/-- A call of a scriptlet, with the origin that is reported. -/
structure Call where
  origin : Option Origin
  name : Text
  args : List Text
deriving DecidableEq, Repr

/-- The call that a snippet is to make. Only the verbose variant reports the origin. -/
def callOf (i : ScriptletInvocation) : Call where
  origin := if i.verbose then some ⟨i.domain, i.engine, i.ruleText, i.version⟩ else none
  name := i.name
  args := i.args

/-! ## Reading -/

/-- Read a string or null, as the optional text that it stands for. -/
def optionalText? : Json.Source → Option (Option Text)
  | .null => some none
  | .string (some t) => some (some t)
  | _ => none

/-- Read an array of strings. -/
def textArray? : Json.Source → Option (List Text)
  | .array items => items.mapM (·.text?)
  | _ => none

/-- Read the origin of a call. -/
def originOf? (v : Json.Source) : Option Origin := do
  let fields ← v.fields? ["domainName".toList, "engine".toList, "ruleText".toList, "version".toList]
  match fields with
  | [some domain, some engine, some ruleText, some version] =>
    return ⟨← optionalText? domain, ← engine.text?, ← ruleText.text?, ← version.text?⟩
  | _ => none

/-- Read the origin of a call, if it is reported. -/
def readReport? (t : Text) : Option (Option Origin × Text) :=
  match t.dropPrefix? "console.log('[sieve] scriptlet', ".toList with
  | none => some (none, t)
  | some t => do
    let (v, t) ← Json.Source.read? t
    let reported ← originOf? v
    let t ← t.dropPrefix? "); ".toList
    return (some reported, t)

/-- Read the statement that calls a scriptlet: its name and its arguments, and what follows. -/
def readStatement? (t : Text) : Option ((Text × List Text) × Text) := do
  let t ← t.dropPrefix? "try \x7b window.scriptlets[".toList
  let (v, t) ← Json.Source.read? t
  let name ← v.text?
  let t ← t.dropPrefix? "].apply(null, ".toList
  let (v, t) ← Json.Source.read? t
  let args ← textArray? v
  let t ← t.dropPrefix? "); \x7d catch (e) \x7b console.error(e); \x7d".toList
  return ((name, args), t)

/-- Read a snippet: the call that it makes. -/
def readSnippet? (t : Text) : Option Call := do
  let t ← t.dropPrefix? "(function () \x7b ".toList
  let (origin, t) ← readReport? t
  let ((name, args), t) ← readStatement? t
  let t ← t.dropPrefix? " \x7d)();".toList
  if t.isEmpty then some ⟨origin, name, args⟩ else none

/-! ## Values -/

theorem textArray?_source (ts : List Text) :
    textArray? (Json.source (.arr (ts.map .str))) = some ts := by
  rw [Json.source, Json.sources_map_str, textArray?]
  induction ts with
  | nil => rfl
  | cons t ts ih => rw [List.map_cons, List.mapM_cons, ih]; rfl

/-- The origin of a call is read back. -/
theorem originOf?_source (i : ScriptletInvocation) :
    originOf? (Json.source (origin i)) = some ⟨i.domain, i.engine, i.ruleText, i.version⟩ := by
  cases hdomain : i.domain <;> rw [origin, hdomain] <;> rfl

/-! ## Snippets -/

theorem dropPrefix?_append (w t : Text) : (w ++ t).dropPrefix? w = some t :=
  List.dropPrefix?_append_of_beq t (beq_self_eq_true w)

theorem dropPrefix?_of_ne {c d : Char} (h : c ≠ d) (s t : Text) :
    List.dropPrefix? (c :: s) (d :: t) = none := by
  rw [List.dropPrefix?, if_neg (by simpa using h)]

section Printer

variable {print : Json → Text}

/-- The report of an origin is read back, and what follows is left. -/
theorem readReport?_origin (hprint : Json.IsReadBack print) (i : ScriptletInvocation)
    (rest : Text) :
    readReport? ("console.log('[sieve] scriptlet', ".toList ++
        (print (origin i) ++ ("); ".toList ++ rest))) =
      some (some ⟨i.domain, i.engine, i.ruleText, i.version⟩, rest) := by
  have hends : Json.EndsNumber ("); ".toList ++ rest) :=
    Json.endsNumber_cons (c := ')') (by decide) ("; ".toList ++ rest)
  rw [readReport?, dropPrefix?_append]
  simp only [hprint (origin i) hends, originOf?_source, dropPrefix?_append, Option.bind_eq_bind,
    Option.bind_some, Option.pure_def]

/-- A statement is not taken for a report: they differ in their first characters. -/
theorem readReport?_callStatement (i : ScriptletInvocation) (rest : Text) :
    readReport? (callStatement print i ++ rest) = some (none, callStatement print i ++ rest) := by
  obtain ⟨tail, htail⟩ : ∃ tail, callStatement print i ++ rest = 't' :: tail := ⟨_, rfl⟩
  obtain ⟨word, hword⟩ : ∃ word, "console.log('[sieve] scriptlet', ".toList = 'c' :: word :=
    ⟨_, rfl⟩
  rw [readReport?, hword, htail, dropPrefix?_of_ne (by decide)]

/-- The statement that makes a call is read back, and what follows is left. -/
theorem readStatement?_callStatement (hprint : Json.IsReadBack print) (i : ScriptletInvocation)
    (rest : Text) :
    readStatement? (callStatement print i ++ rest) = some ((i.name, i.args), rest) := by
  have hname : ∀ t, Json.EndsNumber ("].apply(null, ".toList ++ t) := fun t =>
    Json.endsNumber_cons (c := ']') (by decide) (".apply(null, ".toList ++ t)
  have hargs : ∀ t, Json.EndsNumber ("); \x7d catch (e) \x7b console.error(e); \x7d".toList ++ t) :=
    fun t => Json.endsNumber_cons (c := ')') (by decide)
      ("; \x7d catch (e) \x7b console.error(e); \x7d".toList ++ t)
  have htext : (Json.source (.str i.name)).text? = some i.name := rfl
  unfold readStatement? callStatement
  simp only [List.append_assoc, dropPrefix?_append, hprint _ (hname _), hprint _ (hargs _), htext,
    textArray?_source, Option.bind_eq_bind, Option.bind_some, Option.pure_def]

/-- **A snippet is read back** as the call that it is to make. -/
theorem readSnippet?_snippetWith (hprint : Json.IsReadBack print) (i : ScriptletInvocation) :
    readSnippet? (snippetWith print i) = some (callOf i) := by
  have hend : " \x7d)();".toList.dropPrefix? " \x7d)();".toList = some [] := by
    simpa only [List.append_nil] using dropPrefix?_append " \x7d)();".toList []
  unfold readSnippet? snippetWith callOf
  cases i.verbose with
  | false =>
    simp only [Bool.false_eq_true, if_false, List.nil_append, List.append_assoc, dropPrefix?_append,
      readReport?_callStatement, readStatement?_callStatement hprint, hend, Option.bind_eq_bind,
      Option.bind_some, List.isEmpty_nil, if_true]
  | true =>
    simp only [if_true, List.append_assoc, dropPrefix?_append, readReport?_origin hprint,
      readStatement?_callStatement hprint, hend, Option.bind_eq_bind, Option.bind_some,
      List.isEmpty_nil]

end Printer

/-! ## Equal snippets -/

/-- Two snippets make the same call if they agree in the name, the arguments and what is reported.
-/
theorem callOf_eq_iff (i j : ScriptletInvocation) :
    callOf i = callOf j ↔ i.verbose = j.verbose ∧ i.name = j.name ∧ i.args = j.args ∧
      (i.verbose = true → i.engine = j.engine ∧ i.version = j.version ∧ i.ruleText = j.ruleText ∧
        i.domain = j.domain) := by
  unfold callOf
  cases i.verbose <;> cases j.verbose <;> simp
  -- Left are two calls that both report their origin, whose fields stand in another order.
  tauto

section Printer

variable {print : Json → Text} {i j : ScriptletInvocation}

theorem callStatement_congr (hname : i.name = j.name) (hargs : i.args = j.args) :
    callStatement print i = callStatement print j := by
  unfold callStatement
  rw [hname, hargs]

/-- A snippet holds nothing of an invocation but its call. -/
theorem snippetWith_congr (h : callOf i = callOf j) : snippetWith print i = snippetWith print j := by
  obtain ⟨hverbose, hname, hargs, hreported⟩ := (callOf_eq_iff i j).mp h
  have hcall : callStatement print i = callStatement print j := callStatement_congr hname hargs
  unfold snippetWith
  rw [hcall, ← hverbose]
  cases hv : i.verbose with
  | false => rfl
  | true =>
    obtain ⟨hengine, hversion, hrule, hdomain⟩ := hreported hv
    have horigin : origin i = origin j := by
      unfold origin
      rw [hengine, hversion, hrule, hdomain]
    rw [horigin]

/-- However values are printed, if they are read back then equal snippets make equal calls. -/
theorem snippetWith_eq_iff (hprint : Json.IsReadBack print) :
    snippetWith print i = snippetWith print j ↔ callOf i = callOf j := by
  refine ⟨fun h => ?_, snippetWith_congr⟩
  have hread : some (callOf i) = some (callOf j) := by
    rw [← readSnippet?_snippetWith hprint i, ← readSnippet?_snippetWith hprint j, h]
  exact Option.some.inj hread

end Printer

/-- **A snippet keeps its call.** Whatever its texts hold, a snippet is read back as the call that
was to be made, with each text inside its own literal. Two snippets are the same text exactly if
they are of one variant and agree on the name, on the arguments and, where the origin is reported,
on all of the origin. -/
theorem readSnippet?_snippet_and_snippet_eq_iff (i j : ScriptletInvocation) :
    readSnippet? (snippet i) = some (callOf i) ∧
      (snippet i = snippet j ↔ i.verbose = j.verbose ∧ i.name = j.name ∧ i.args = j.args ∧
        (i.verbose = true → i.engine = j.engine ∧ i.version = j.version ∧
          i.ruleText = j.ruleText ∧ i.domain = j.domain)) := by
  refine ⟨readSnippet?_snippetWith Json.isReadBack_compact i, ?_⟩
  rw [← callOf_eq_iff]
  exact snippetWith_eq_iff Json.isReadBack_compact

end ContentFilter.Resource
