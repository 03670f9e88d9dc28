import ContentFilter.Config
import ContentFilter.Json.Source

/-!
# Reading configurations

A configuration is a JSON record of records. Missing fields have their defaults, and unknown
ones are ignored.

In the engine: `EngineConfig::from_json_str` (`Config.parse`).
-/

set_option autoImplicit false

namespace ContentFilter

open Json (Source)

/-- The value of a field, or its default if the field is missing. -/
private def field {α : Type} (read : Source → Option α) (default : α) :
    Option Source → Option α
  | some value => read value
  | none => some default

/-- Read a duplicate policy. -/
def DuplicatePolicy.ofSource? (value : Source) : Option DuplicatePolicy := do
  let tag ← value.tag?
  if tag = "last-wins".toList then some .lastWins
  else if tag = "reject".toList then some .reject
  else none

/-- Read the settings of the rule readers. -/
def ParserConfig.ofSource? (value : Source) : Option ParserConfig := do
  match ← value.fields? ["min_rule_length".toList, "duplicate_modifiers".toList] with
  | [minLength, duplicates] =>
    return {
      minRuleLength := ← field (·.count?) ({} : ParserConfig).minRuleLength minLength
      duplicates := ← field DuplicatePolicy.ofSource? ({} : ParserConfig).duplicates duplicates }
  | _ => none

/-- Read the settings of the list loader. -/
def LoaderConfig.ofSource? (value : Source) : Option LoaderConfig := do
  match ← value.fields? ["chunk_size".toList] with
  | [chunkSize] =>
    return { chunkSize := ← field (·.count?) ({} : LoaderConfig).chunkSize chunkSize }
  | _ => none

namespace Config

/-- Read the settings of the engine. -/
def ofSource? (value : Source) : Option Config := do
  match ← value.fields? ["engine".toList, "version".toList, "parser".toList, "loader".toList] with
  | [engine, version, parser, loader] =>
    return {
      engine := ← field (·.text?) ({} : Config).engine engine
      version := ← field (·.text?) ({} : Config).version version
      parser := ← field ParserConfig.ofSource? {} parser
      loader := ← field LoaderConfig.ofSource? {} loader }
  | _ => none

/-- Read a configuration from JSON text, and check its values (`EngineConfig::from_json_str`). -/
def parse (text : Text) : Except ConfigError Config :=
  match (Source.parse? text).bind ofSource? with
  | some config => config.validate
  | none => .error .invalidFormat

end Config

end ContentFilter
