import ContentFilter.Modifier.Reader
import ContentFilter.ValueList

/-!
# The page scope of a cosmetic rule

What stands before the marker of a cosmetic rule says on which pages it holds: a domain list
(`a.com,~b.a.com`), a modifier block (`[$path=/x,domain=a.com|b.com]`), or a block followed by
a domain list. Domains come from the list or from the domain modifier, never from both. The
name `*` stands for every domain, so it adds nothing to the permitted domains; a list that is
only `*` is not read at all.

In the engine: `PatternText` (`Parts`), `parse_rule_pattern_text` (`Parts.ofFragment`),
`parse_rule_modifiers` (`readBlock`), `unescape_path` (`unescapePath`), `ParsedPattern`
(`PageScope`), `parse_rule_pattern` (`parse`).
-/

set_option autoImplicit false

namespace ContentFilter

/-- The pages on which a cosmetic rule holds. -/
structure PageScope where
  domains : Scope := {}
  /-- The path, with its escapes resolved. -/
  path : Option Text := none
  /-- The address, as written. -/
  url : Option Text := none
  /-- The inside of the modifier block, as written. -/
  rawModifiers : Option Text := none
deriving DecidableEq, Repr, Inhabited

namespace PageScope

/-- The parts of the text before a marker. -/
structure Parts where
  /-- The inside of the modifier block, if there is a block. -/
  block : Option Fragment
  /-- The domain list, empty if there is none. -/
  domains : Fragment
deriving DecidableEq, Repr, Inhabited

/-- What opens a modifier block. -/
def blockOpening : Text := "[$".toList

/-- What closes a modifier block. -/
def blockClosing : Char := ']'

/-- Take the text before a marker apart (`parse_rule_pattern_text`). The block ends at the first
closing bracket that no backslash directly precedes. -/
def Parts.ofFragment (pattern : Fragment) : Reading Parts :=
  match pattern.strip? blockOpening with
  | none => .ok ⟨none, pattern⟩
  | some opened =>
    match opened.splitFirst? blockClosing with
    | none => refuse .unterminatedModifiers pattern.span
    | some (block, domains) =>
      if block.text.isEmpty then refuse .emptyModifiers ⟨pattern.offset, domains.offset⟩
      else .ok ⟨some block, domains⟩

/-- Resolve the escapes of a path: a backslash before a bracket, a comma or a backslash is dropped,
any other stays (`unescape_path`). -/
def unescapePath (path : Text) : Text :=
  go [] path
where
  /-- The loop of `unescapePath`; `done` is the text so far, last character first. -/
  go (done : Text) : Text → Text
    | [] => done.reverse
    | [c] => (c :: done).reverse
    | c :: d :: rest =>
      if c = '\\' ∧ (d = ']' ∨ d = '[' ∨ d = ',' ∨ d = '\\') then go (d :: done) rest
      else go (c :: done) (d :: rest)

/-- Read the inside of a modifier block; an empty block is none (`parse_rule_modifiers`). -/
def readBlock (policy : DuplicatePolicy) (block : Fragment) : Reading (Option ModifierMap) :=
  if block.text.isEmpty then .ok none
  else (ModifierMap.parse .cosmetic policy block).map some

/-- The name that stands for every domain. -/
def everyDomain : Text := "*".toList

/-- The domain list in force, with its separator: that of the domain modifier or the one after
the block. -/
def domainList? (modifiers : ModifierMap) (domains : Fragment) :
    Reading (Option (Fragment × Separator)) :=
  match modifiers.get? .domain with
  | some modifier =>
    if domains.text.isEmpty then .ok (modifier.value.map (·, .pipe))
    else refuse .domainModifierConflict modifier.span
  | none => .ok (if domains.text.isEmpty then none else some (domains, .comma))

/-- Read a domain list. -/
def readDomains (list : Fragment) (separator : Separator) : Reading Scope :=
  if Text.trim Text.isWhite list.text = everyDomain then .ok {}
  else do
    let items ← ValueList.parse separator list
    let scope := ValueList.scope items
    return { scope with permitted := scope.permitted.filter (· != everyDomain) }

/-- Read the text before a marker (`parse_rule_pattern`). -/
def parse (policy : DuplicatePolicy) (pattern : Fragment) : Reading PageScope := do
  let parts ← Parts.ofFragment pattern
  let block ← match parts.block with
    | some block => readBlock policy block
    | none => .ok none
  let modifiers := block.getD {}
  let domains ← match ← domainList? modifiers parts.domains with
    | some (list, separator) => readDomains list separator
    | none => .ok {}
  return {
    domains
    path := (modifiers.value? .path).map unescapePath
    url := modifiers.value? .url
    rawModifiers := parts.block.map (·.text) }

end PageScope

end ContentFilter
