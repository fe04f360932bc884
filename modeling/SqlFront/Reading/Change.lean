import SqlFront.Clause.Expression
import SqlFront.Clause.InsertRows
import SqlFront.Clause.TableReference
import SqlFront.Clause.Where
import SqlFront.Statement.Basic

/-!
# Reading INSERT, UPDATE and DELETE
-/

set_option autoImplicit false

namespace SqlFront.Reading
open SqlFront.Parser SqlFront.Clause

def appendItem? (item : String) : List Edit → Option (List Edit)
  | [] => none
  | .items start items leading :: rest => some (.items start (items ++ [item]) leading :: rest)
  | e :: rest => (appendItem? item rest).map (e :: ·)

/-- The rows leave the generated key to the program: all are rows of values, and no column is the
key. -/
def lacksKey (key : String) (s : InsertStatement) : Bool :=
  s.generatedKeyIndex?.isNone && s.generatedKeys.isEmpty &&
    !s.columns.any (fun c => sameName c.name key) && !s.rows.isEmpty &&
    s.rows.all (fun r => r.form == .values)

def addKeyColumn (key : String) (s : InsertStatement) : InsertStatement :=
  let edits :=
    match appendItem? key s.findings.edits with
    | some edits => edits
    | none => s.findings.edits ++ [.items s.columnListStop [key] false]
  { s with findings := { s.findings with edits := edits } }

def completeKey (rule : ShardingRule) : Parser InsertStatement Unit := do
  let table ← insertTable
  match rule.generatedKey? table with
  | some key => modifyDraft fun s => if lacksKey key s then addKeyColumn key s else s
  | none => pure ()

def insertion (rule : ShardingRule) (catalog : Catalog) : Parser InsertStatement Unit := do
  advance
  intoClause
  columnList rule catalog
  refuseIf [.keyword .SELECT, .symbol .leftParen]
  valuesClause rule
  insertAssignments rule
  duplicateKeyClause rule
  completeKey rule

def insertStatement (rule : ShardingRule) (catalog : Catalog) : Parser Unit Statement := do
  let (s, _) ← inside {} (insertion rule catalog)
  return .insert s

def update (rule : ShardingRule) : Parser Findings Unit := do
  advance
  skipAll (keywordTypes (← grammar).updateModifiers)
  tableReferences rule true
  updateAssignments
  whereClause rule

def updateStatement (rule : ShardingRule) : Parser Unit Statement := do
  let (f, _) ← inside { kind := .dml } (update rule)
  return .update f

def deletion (rule : ShardingRule) : Parser Findings Unit := do
  advance
  skipAll (keywordTypes (← grammar).deleteModifiers)
  tableReferences rule true
  whereClause rule

def deleteStatement (rule : ShardingRule) : Parser Unit Statement := do
  let (f, _) ← inside { kind := .dml } (deletion rule)
  return .delete f

end SqlFront.Reading
