import SqlFront.KeyedList
import SqlFront.Statement.Table
import SqlFront.Text.LowerCase

/-!
# Sharding rule and table catalog

The sharding rule tells which tables are spread over several databases and by which columns. The
catalog tells the columns of a table. Both find a table by its name in lower case.
-/

set_option autoImplicit false

namespace SqlFront

/-!
## Settings of sharding

What an administrator writes down about the tables that are spread over several databases.
-/

structure TableSettings where
  logicTable : String := ""
  shardingColumns : List String := []
  generatedKey? : Option String := none
  /-- The columns in the order of their declaration. -/
  columns : List String := []
deriving DecidableEq

structure ShardingSettings where
  defaultDataSource? : Option String := none
  tables : List TableSettings := []
deriving DecidableEq

/-! ## Sharding rule and table catalog -/

structure TableRule where
  shardingColumns : List String
  generatedKey? : Option String
deriving DecidableEq

structure ShardingRule where
  tables : List (String × TableRule)
  defaultDataSource? : Option String
deriving DecidableEq

namespace ShardingRule

def ofSettings (s : ShardingSettings) : ShardingRule :=
  ⟨KeyedList.ofPairs (s.tables.map fun t =>
      (lowerCase t.logicTable, ⟨t.shardingColumns, t.generatedKey?⟩)),
    s.defaultDataSource?⟩

def logicTables (r : ShardingRule) : List String := r.tables.map Prod.fst

def tableRule? (r : ShardingRule) (table : String) : Option TableRule :=
  KeyedList.get? (lowerCase table) r.tables

def containsTable (r : ShardingRule) (table : String) : Bool := (r.tableRule? table).isSome

def hasDefault (r : ShardingRule) : Bool := r.defaultDataSource?.isSome

def generatedKey? (r : ShardingRule) (table : String) : Option String :=
  (r.tableRule? table).bind TableRule.generatedKey?

def isShardingColumn (r : ShardingRule) (c : Column) : Bool :=
  (r.tableRule? c.table).any fun t => t.shardingColumns.any (fun n => sameName n c.name)

def isGeneratedKey (key? : Option String) (name : String) : Bool :=
  key?.any (fun key => sameName key name)

end ShardingRule

structure Catalog where
  tables : List (String × List String)
deriving DecidableEq

namespace Catalog

def ofSettings (s : ShardingSettings) : Catalog :=
  ⟨KeyedList.ofPairs ((s.tables.filter fun t => !t.columns.isEmpty).map fun t =>
    (lowerCase t.logicTable, t.columns))⟩

def withTable (c : Catalog) (table : String) (columns : List String) : Catalog :=
  ⟨KeyedList.put (lowerCase table) columns c.tables⟩

def containsTable (c : Catalog) (table : String) : Bool :=
  (KeyedList.get? (lowerCase table) c.tables).isSome

def columns (c : Catalog) (table : String) : List String :=
  (KeyedList.get? (lowerCase table) c.tables).getD []

def containsColumn (c : Catalog) (table column : String) : Bool :=
  (c.columns table).any (fun n => sameName n column)

end Catalog

end SqlFront
