import ContentFilter.Cosmetic.PageScope
import ContentFilter.Proofs.Reading

/-!
# A page scope in steps

The text before a marker is read in four steps: it is taken apart, its block is read, the domain
list in force is found, and that list is read. A block and a domain list may each be missing, and
what is missing reads as an empty map or as no restriction. `parse_eq` puts the reader into this
form, in which each step has an answer of its own and proofs go through one step after the other.
-/

set_option autoImplicit false

namespace ContentFilter.PageScope

/-- The modifiers of the block, none if there is no block. -/
def readModifiers (policy : DuplicatePolicy) : Option Fragment → Reading ModifierMap
  | none => .ok {}
  | some block => (readBlock policy block).map (·.getD {})

/-- An empty block is read like any other. -/
theorem readModifiers_some (policy : DuplicatePolicy) (block : Fragment) :
    readModifiers policy (some block) = ModifierMap.parse .cosmetic policy block := by
  obtain ⟨offset, text⟩ := block
  rw [readModifiers, readBlock]
  cases text with
  | nil => rfl
  | cons c text =>
    show ((ModifierMap.parse .cosmetic policy ⟨offset, c :: text⟩).map some).map _ = _
    cases ModifierMap.parse .cosmetic policy ⟨offset, c :: text⟩ <;> rfl

/-- The domains of the list in force, any if there is no list. -/
def readDomains? : Option (Fragment × Separator) → Reading Scope
  | none => .ok {}
  | some (list, separator) => readDomains list separator

/-- The page scope of which everything is known. -/
def ofParts (block : Option Fragment) (modifiers : ModifierMap) (domains : Scope) : PageScope where
  domains
  path := (modifiers.value? .path).map unescapePath
  url := modifiers.value? .url
  rawModifiers := block.map (·.text)

/-- The domain list in force before a marker, with its separator, if there is one. -/
def domainListIn? (policy : DuplicatePolicy) (pattern : Fragment) :
    Reading (Option (Fragment × Separator)) := do
  let parts ← Parts.ofFragment pattern
  let modifiers ← readModifiers policy parts.block
  domainList? modifiers parts.domains

/-- Reading a page scope, step by step, by the functions of which the facts here speak. -/
theorem parse_eq (policy : DuplicatePolicy) (pattern : Fragment) :
    parse policy pattern = (do
      let parts ← Parts.ofFragment pattern
      let modifiers ← readModifiers policy parts.block
      let list? ← domainList? modifiers parts.domains
      let domains ← readDomains? list?
      return ofParts parts.block modifiers domains) := by
  rw [parse]
  refine bind_congr fun parts => ?_
  obtain ⟨block, domains⟩ := parts
  -- What follows the block is the same whether there is one or not.
  extract_lets scope
  have hscope : ∀ block?, scope block? =
      (domainList? (block?.getD {}) domains >>= fun list? =>
        readDomains? list? >>= fun domains =>
          pure (ofParts block (block?.getD {}) domains)) := by
    intro block?
    refine bind_congr fun list? => ?_
    cases list? <;> rfl
  cases block with
  | none => exact hscope none
  | some block =>
    show (readBlock policy block >>= scope) = ((readBlock policy block).map (·.getD {}) >>= _)
    cases readBlock policy block with
    | error e => rfl
    | ok modifiers => exact hscope modifiers

/-- A page scope is read if each step is; the last one is to read the list in force. -/
theorem parse_eq_ok_iff {policy : DuplicatePolicy} {pattern : Fragment} {scope : PageScope} :
    parse policy pattern = .ok scope ↔ ∃ parts modifiers domains,
      Parts.ofFragment pattern = .ok parts ∧ readModifiers policy parts.block = .ok modifiers ∧
        (domainList? modifiers parts.domains >>= readDomains?) = .ok domains ∧
        scope = ofParts parts.block modifiers domains := by
  simp only [parse_eq, Reading.bind_eq_ok_iff]
  constructor
  · rintro ⟨parts, hparts, modifiers, hmodifiers, list?, hlist, domains, hdomains, hscope⟩
    exact ⟨parts, modifiers, domains, hparts, hmodifiers, ⟨list?, hlist, hdomains⟩,
      (Except.ok.inj hscope).symm⟩
  · rintro ⟨parts, modifiers, domains, hparts, hmodifiers, ⟨list?, hlist, hdomains⟩, rfl⟩
    exact ⟨parts, hparts, modifiers, hmodifiers, list?, hlist, domains, hdomains, rfl⟩

end ContentFilter.PageScope
