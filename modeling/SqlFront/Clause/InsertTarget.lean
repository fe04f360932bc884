import SqlFront.Clause.TableReference
import SqlFront.Sharding.Rule
import SqlFront.Statement.Insertion

/-!
# Target and columns of INSERT
-/

set_option autoImplicit false

namespace SqlFront.Clause
open SqlFront.Parser

def insertTable : Parser InsertStatement String := do
  match (← draft).findings.tables.singleName? with
  | some name => return name
  | none => throw (.internal .insertWithoutTable)

def intoClause : Parser InsertStatement Unit := do
  let words ← grammar
  refuseIf (keywordTypes words.refusedBeforeInto)
  skipUntil [.keyword .INTO]
  expectKeyword .INTO
  onFindings bareTable
  whileM (skipIf (keywordTypes words.betweenTableAndValues)) do
    let _ ← onFindings skipParentheses

def addColumn (key? : Option String) (column : Column) (s : InsertStatement) : InsertStatement :=
  { s with
    columns := s.columns ++ [column]
    generatedKeyIndex? :=
      if ShardingRule.isGeneratedKey key? column.name then some s.columns.length
      else s.generatedKeyIndex? }

def columnName : Parser InsertStatement (String × Nat) := do
  let start := (← current).start
  let e ← onFindings expression
  match e.columnName? with
  | some name => return (name, start)
  | none => throw (.malformed start (.notColumn e))

def writtenColumns (rule : ShardingRule) (table : String) : Parser InsertStatement Unit := do
  let key? := rule.generatedKey? table
  discard <| commaSeparated do
    let (name, _) ← columnName
    modifyDraft (addColumn key? ⟨name, table⟩)
  let stop := (← current).start
  modifyDraft fun s => { s with columnListStop := stop }
  expectSymbol .rightParen

/-- The columns that the catalog gives to a statement without a column list. The list is written
before the token at `start`. -/
def catalogColumns (rule : ShardingRule) (catalog : Catalog) (table : String) (start : Nat)
    (s : InsertStatement) : InsertStatement :=
  let place := start - 1
  let columns := catalog.columns table
  let key? := rule.generatedKey? table
  let s := columns.foldl (fun s name => addColumn key? ⟨name, table⟩ s) s
  let edits := [.insertColumn place "(", .items place columns true, .insertColumn place ")"]
  { s with
    findings := { s.findings with edits := s.findings.edits ++ edits }
    columnListStop := place }

def columnList (rule : ShardingRule) (catalog : Catalog) : Parser InsertStatement Unit := do
  let table ← insertTable
  if ← skipSymbol .leftParen then writtenColumns rule table
  else if catalog.containsTable table then
    let start := (← current).start
    modifyDraft (catalogColumns rule catalog table start)

end SqlFront.Clause
