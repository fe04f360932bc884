import SqlFront.Settings.Basic
import SqlFront.Toml.Read

/-!
# Settings files

Settings are kept in TOML files. What a file does not give has its built-in value, and fields that
are not known do not count.
-/

set_option autoImplicit false

namespace SqlFront

open Toml (fieldOr asString? asBoolean? asCount? asList?)

/-- The dialect that a file names; only its own name counts. The name may stand for itself, or it
may be the one key of a table, with nothing in the value. -/
def Dialect.ofToml? : Toml → Option Dialect
  | .string name => Dialect.ofName? name
  | .table [(name, v)] => if v.isEmpty then Dialect.ofName? name else none
  | _ => none

def CacheSettings.ofToml? (t : Toml) : Option CacheSettings := do
  let builtIn : CacheSettings := {}
  guard (t.othersFit ["enable_caching", "cache_capacity"])
  return ⟨← t.fieldOr builtIn.enabled asBoolean? 0 "enable_caching",
    ← t.fieldOr builtIn.capacity asCount? 1 "cache_capacity"⟩

def logLevelOfToml? (t : Toml) : Option String := do
  guard (t.othersFit ["level"])
  t.fieldOr ({} : Settings).logLevel asString? 0 "level"

def optionalText? (t : Toml) : Option (Option String) := t.asString?.map some

def TableSettings.ofToml? (t : Toml) : Option TableSettings := do
  guard (t.othersFit ["logic_table", "sharding_columns", "generate_key_column", "columns"])
  return ⟨← t.fieldOr "" asString? 0 "logic_table",
    ← t.fieldOr [] (asList? asString?) 1 "sharding_columns",
    ← t.fieldOr none optionalText? 2 "generate_key_column",
    ← t.fieldOr [] (asList? asString?) 3 "columns"⟩

def ShardingSettings.ofToml? (t : Toml) : Option ShardingSettings := do
  guard (t.othersFit ["default_data_source", "tables"])
  return ⟨← t.fieldOr none optionalText? 0 "default_data_source",
    ← t.fieldOr [] (asList? TableSettings.ofToml?) 1 "tables"⟩

def Settings.ofToml? (t : Toml) : Option Settings := do
  let builtIn : Settings := {}
  guard (t.othersFit ["dialect", "parser", "logging", "sharding"])
  return ⟨← t.fieldOr builtIn.dialect Dialect.ofToml? 0 "dialect",
    ← t.fieldOr builtIn.cache CacheSettings.ofToml? 1 "parser",
    ← t.fieldOr builtIn.logLevel logLevelOfToml? 2 "logging",
    ← t.fieldOr builtIn.sharding ShardingSettings.ofToml? 3 "sharding"⟩

def Toml.optionalField (name : String) (value? : Option String) : List (String × Toml) :=
  value?.toList.map fun v => (name, .string v)

def Toml.ofStrings (vs : List String) : Toml := .array (vs.map .string)

def TableSettings.toToml (t : TableSettings) : Toml :=
  .table ([("logic_table", .string t.logicTable),
      ("sharding_columns", Toml.ofStrings t.shardingColumns)] ++
    Toml.optionalField "generate_key_column" t.generatedKey? ++
    [("columns", Toml.ofStrings t.columns)])

def Settings.toToml (s : Settings) : List (String × Toml) :=
  [("dialect", .string s.dialect.name),
    ("parser", .table [("enable_caching", .boolean s.cache.enabled),
      ("cache_capacity", .integer s.cache.capacity)]),
    ("logging", .table [("level", .string s.logLevel)]),
    ("sharding", .table (Toml.optionalField "default_data_source" s.sharding.defaultDataSource? ++
      [("tables", .array (s.sharding.tables.map TableSettings.toToml))]))]

namespace Settings

def ofText (text : String) : Except Fault Settings :=
  match Toml.read? text with
  | none => .error (.configuration (.notSettings "not a TOML text"))
  | some t =>
    match ofToml? t with
    | none => .error (.configuration (.notSettings "a field has a wrong value"))
    | some s => .ok s

def toText (s : Settings) : Except Fault String :=
  if s.cache.capacity < 0x8000000000000000 then .ok (Toml.document s.toToml)
  else .error (.configuration (.capacityTooLarge s.cache.capacity))

/-- The settings of the file if there is one, of the environment over them and of the command line
over both. -/
def layered (read : String → Except Fault Settings) (file? : Option String) (e : Environment)
    (dialect? logLevel? : Option String) : Except Fault Settings := do
  let file ← match file? with
    | some text => read text
    | none => pure {}
  let s := file.overlay (← ofEnvironment e)
  return { s with
    dialect := ← Environment.valueOr s.dialect Dialect.ofText dialect?
    logLevel := logLevel?.getD s.logLevel }

def load (file? : Option String) (e : Environment) (dialect? logLevel? : Option String) :
    Except Fault Settings := do
  let s ← layered ofText file? e dialect? logLevel?
  s.validate
  return s

end Settings

end SqlFront
