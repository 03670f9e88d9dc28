import ContentFilter.Modifier.Map

/-!
# Configuration

Every setting has a default. Two values are refused: an empty engine name, and chunks of no
lines.

In the engine: `EngineConfig` (`Config`), `ParserConfig`, `LoaderConfig`, `ConfigError`,
`EngineConfig::validate` (`Config.validate`).
-/

set_option autoImplicit false

namespace ContentFilter

/-- The settings of the rule readers. -/
structure ParserConfig where
  /-- Rules with fewer bytes than this are not valid. -/
  minRuleLength : Nat := 3
  /-- What becomes of a modifier that is given twice. -/
  duplicates : DuplicatePolicy := .lastWins
deriving DecidableEq, Repr, Inhabited

/-- The settings of the list loader. -/
structure LoaderConfig where
  /-- How many lines are read in one step. -/
  chunkSize : Nat := 1000
deriving DecidableEq, Repr, Inhabited

/-- The settings of the engine. -/
structure Config where
  /-- The name of the engine, which scriptlets are told. -/
  engine : Text := "extension".toList
  /-- The version of the engine, which scriptlets are told. -/
  version : Text := "0.2.0".toList
  parser : ParserConfig := {}
  loader : LoaderConfig := {}
deriving DecidableEq, Repr, Inhabited

/-- The settings whose values can be refused. -/
inductive Setting where
  | engine
  | chunkSize
deriving DecidableEq, Repr, Inhabited

namespace Setting

/-- The name of a setting. -/
def label : Setting → Text
  | engine => "engine".toList
  | chunkSize => "loader.chunk_size".toList

/-- What a value of the setting has to be. -/
def demand : Setting → Text
  | engine => "must not be empty".toList
  | chunkSize => "must be greater than zero".toList

end Setting

/-- Why there is no configuration. -/
inductive ConfigError where
  | invalidFormat
  /-- A setting has a value that it cannot have. -/
  | invalidValue (setting : Setting)
deriving DecidableEq, Repr, Inhabited

/-- The wording of an error. -/
def ConfigError.message : ConfigError → Text
  | invalidFormat => "Invalid config format: not a configuration object".toList
  | invalidValue setting =>
    "Invalid value for '".toList ++ setting.label ++ "': ".toList ++ setting.demand

namespace Config

/-- Check the values of the settings (`EngineConfig::validate`). -/
def validate (c : Config) : Except ConfigError Config :=
  if c.engine.isEmpty then .error (.invalidValue .engine)
  else if c.loader.chunkSize = 0 then .error (.invalidValue .chunkSize)
  else .ok c

end Config

end ContentFilter
