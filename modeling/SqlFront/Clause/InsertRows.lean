import SqlFront.Clause.Expression
import SqlFront.Clause.InsertTarget

/-!
# Rows of INSERT

Every row of values and every SET clause gives one row and one group of conditions. A row has a
value for every column; a row that leaves out the generated key is allowed where the catalog gave
the columns.
-/

set_option autoImplicit false

namespace SqlFront.Clause
open SqlFront.Parser

def recordGeneratedKey (key? : Option String) (column : Column) (value : Expression)
    (place : Nat) : Parser InsertStatement Unit := do
  if ShardingRule.isGeneratedKey key? column.name then
    if value.isShardingValue then
      modifyDraft fun s => { s with generatedKeys := s.generatedKeys ++ [⟨column, value⟩] }
    else throw (.unsupported place (.generatedKeyValue column.name value))

def valueCondition? (rule : ShardingRule) (column : Column) (value : Expression) :
    Option Condition :=
  if value.isShardingValue && rule.isShardingColumn column then
    some ⟨column, .equal, [value]⟩
  else none

def removeKeyColumn (key : String) (s : InsertStatement) : InsertStatement :=
  let columns := s.columns.filter fun c => !sameName c.name key
  if columns.length = s.columns.length then s
  else
    let edits := s.findings.edits.map fun
      | .items start items leading =>
        .items start (items.filter fun name => !sameName name key) leading
      | e => e
    { s with
      columns := columns
      findings := { s.findings with edits := edits }
      generatedKeyIndex? := none }

def shortenColumns (key? : Option String) (values : Nat) (s : InsertStatement) :
    InsertStatement :=
  match key? with
  | some key => if values < s.columns.length then removeKeyColumn key s else s
  | none => s

def addRow (form : RowForm) (source : String) (before : Nat) (conditions : List Condition)
    (s : InsertStatement) : InsertStatement :=
  { s with
    findings := s.findings.pushGroup ⟨conditions⟩
    rows := s.rows ++ [⟨form, source, s.findings.placeholders - before⟩] }

structure RowPlace where
  start : Nat
  stop : Nat
  before : Nat

def recordValues (rule : ShardingRule) (table : String) (place : RowPlace)
    (pairs : List (Column × Expression)) : Parser InsertStatement Unit := do
  pairs.forM fun (column, value) =>
    recordGeneratedKey (rule.generatedKey? table) column value place.start
  let source := (← cursor).slice place.start place.stop
  modifyDraft (addRow .values source place.before
    (pairs.filterMap fun (column, value) => valueCondition? rule column value))

def recordRow (rule : ShardingRule) (table : String) (place : RowPlace)
    (values : List Expression) : Parser InsertStatement Unit := do
  modifyDraft (shortenColumns (rule.generatedKey? table) values.length)
  let columns := (← draft).columns
  if !columns.isEmpty && columns.length != values.length then
    throw (.malformed place.start (.rowLength columns.length values.length))
  else recordValues rule table place (columns.zip values)

def valuesRow (rule : ShardingRule) (table : String) : Parser InsertStatement Unit := do
  let start := (← current).start
  onFindings <| modifyDraft fun f => f.addEdit (.insertValues start table)
  let before := (← draft).findings.placeholders
  expectSymbol .leftParen
  let values ← commaSeparated (onFindings expression)
  expectSymbol .rightParen
  recordRow rule table ⟨start, (← cursor).previousStop, before⟩ values

def valuesClause (rule : ShardingRule) : Parser InsertStatement Unit := do
  if ← skipIf (keywordTypes (.VALUES :: (← grammar).valuesSynonyms)) then
    let table ← insertTable
    discard <| commaSeparated (valuesRow rule table)

def dropColumns (s : InsertStatement) : InsertStatement :=
  { s with
    findings :=
      { s.findings with
        edits := s.findings.edits.filter fun
          | .insertColumn _ _ => false
          | .items _ _ _ => false
          | _ => true }
    columns := []
    generatedKeyIndex? := none }

def insertAssignment (rule : ShardingRule) (table : String) :
    Parser InsertStatement (Option Condition) := do
  let (name, place) ← columnName
  let column : Column := ⟨name, table⟩
  onFindings assignmentSign
  let value ← onFindings expression
  recordGeneratedKey (rule.generatedKey? table) column value place
  modifyDraft fun s => { s with columns := s.columns ++ [column] }
  return valueCondition? rule column value

def insertAssignments (rule : ShardingRule) : Parser InsertStatement Unit := do
  if (← grammar).insertSet then
    if ← skipKeyword .SET then
      modifyDraft dropColumns
      let table ← insertTable
      let start := (← current).start
      let before := (← draft).findings.placeholders
      let conditions ← commaSeparated (insertAssignment rule table)
      let c ← cursor
      modifyDraft (addRow .set (c.slice start c.previousStop) before (conditions.filterMap id))

def duplicateKeyAssignment (rule : ShardingRule) (table : String) :
    Parser InsertStatement Unit := do
  let start := (← current).start
  let e ← onFindings expression
  match e.columnName? with
  | some name =>
    if rule.isShardingColumn ⟨name, table⟩ then
      throw (.unsupported start (.shardingKeyUpdate name))
  | none => pure ()
  expectSymbol .equal
  let _ ← onFindings expression

def duplicateKeyClause (rule : ShardingRule) : Parser InsertStatement Unit := do
  if (← grammar).onDuplicateKey then
    if ← skipKeyword .ON then
      expectKeyword .DUPLICATE
      expectKeyword .KEY
      expectKeyword .UPDATE
      let table ← insertTable
      discard <| commaSeparated (duplicateKeyAssignment rule table)

end SqlFront.Clause
