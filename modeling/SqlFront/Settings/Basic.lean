import SqlFront.Cache
import SqlFront.Sharding.Rule
import SqlFront.Text.Character

/-!
# Settings

What the program is told about the dialect, the cache, the log and the sharded tables. Settings
from several sources are laid over each other; only values that differ from the built-in ones
count in the upper layer.
-/

set_option autoImplicit false

namespace SqlFront

structure CacheSettings where
  enabled : Bool := true
  capacity : Nat := Cache.defaultCapacity
deriving DecidableEq

structure Settings where
  dialect : Dialect := .mysql
  cache : CacheSettings := {}
  logLevel : String := "info"
  sharding : ShardingSettings := {}
deriving DecidableEq

namespace Settings

def overlaid {α : Type} [DecidableEq α] (builtIn lower upper : α) : α :=
  if upper = builtIn then lower else upper

def overlay (lower upper : Settings) : Settings :=
  let builtIn : Settings := {}
  { dialect := overlaid builtIn.dialect lower.dialect upper.dialect
    cache := {
      enabled := overlaid builtIn.cache.enabled lower.cache.enabled upper.cache.enabled
      capacity := overlaid builtIn.cache.capacity lower.cache.capacity upper.cache.capacity }
    logLevel := overlaid builtIn.logLevel lower.logLevel upper.logLevel
    sharding := {
      defaultDataSource? := upper.sharding.defaultDataSource?.or lower.sharding.defaultDataSource?
      tables := overlaid [] lower.sharding.tables upper.sharding.tables } }

/-! ## Validation -/

def tableFault? (seen : List String) (t : TableSettings) : Option ConfigurationCause :=
  if isBlankText t.logicTable then some .emptyTableName
  else if seen.contains (lowerCase t.logicTable) then some (.duplicateTable t.logicTable)
  else
    t.generatedKey?.bind fun key =>
      if t.columns.isEmpty || t.columns.any (fun c => sameName c key) then none
      else some (.keyNotColumn key t.logicTable)

def tablesFault? : List String → List TableSettings → Option ConfigurationCause
  | _, [] => none
  | seen, t :: ts =>
    (tableFault? seen t).or (tablesFault? (lowerCase t.logicTable :: seen) ts)

def fault? (s : Settings) : Option ConfigurationCause :=
  if isBlankText s.logLevel then some .emptyLogLevel
  else if s.cache.enabled && s.cache.capacity == 0 then some .zeroCapacity
  else tablesFault? [] s.sharding.tables

def validate (s : Settings) : Except Fault Unit :=
  match s.fault? with
  | some cause => .error (.configuration cause)
  | none => .ok ()

end Settings

/-! ## Settings from the environment

Four variables of the environment change the settings. A variable with a wrong value is a fault,
and the variables are looked at in a fixed order. -/

structure Environment where
  dialect? : Option String := none
  logLevel? : Option String := none
  enableCaching? : Option String := none
  cacheCapacity? : Option String := none

namespace Environment

def read {m : Type → Type} [Monad m] (value? : String → m (Option String)) : m Environment := do
  let dialect? ← value? "SHARDSQL_DIALECT"
  let logLevel? ← value? "SHARDSQL_LOG_LEVEL"
  let enableCaching? ← value? "SHARDSQL_ENABLE_CACHING"
  let cacheCapacity? ← value? "SHARDSQL_CACHE_CAPACITY"
  return ⟨dialect?, logLevel?, enableCaching?, cacheCapacity?⟩

def boolean (text : String) : Except Fault Bool :=
  if text = "true" then .ok true
  else if text = "false" then .ok false
  else .error (.configuration (.notBoolean text))

def capacity? (text : String) : Option Nat :=
  let digits :=
    match text.toList with
    | '+' :: cs => cs
    | cs => cs
  (Number.natural? 10 digits).filter (· < 0x10000000000000000)

def capacity (text : String) : Except Fault Nat :=
  match capacity? text with
  | some n => .ok n
  | none => .error (.configuration (.notCapacity text))

def valueOr {α : Type} (absent : α) (value : String → Except Fault α) :
    Option String → Except Fault α
  | some text => value text
  | none => .ok absent

end Environment

namespace Settings

def ofEnvironment (e : Environment) : Except Fault Settings := do
  let builtIn : Settings := {}
  let dialect ← Environment.valueOr builtIn.dialect Dialect.ofText e.dialect?
  let enabled ← Environment.valueOr builtIn.cache.enabled Environment.boolean e.enableCaching?
  let capacity ← Environment.valueOr builtIn.cache.capacity Environment.capacity e.cacheCapacity?
  return { dialect, cache := ⟨enabled, capacity⟩, logLevel := e.logLevel?.getD builtIn.logLevel }

end Settings

end SqlFront
