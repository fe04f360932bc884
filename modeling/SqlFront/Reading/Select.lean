import SqlFront.Clause.Ordering
import SqlFront.Clause.RowLimit
import SqlFront.Clause.SelectList
import SqlFront.Clause.TableReference
import SqlFront.Clause.Where
import SqlFront.Statement.Basic
import SqlFront.Statement.Derived
import SqlFront.Statement.Merge

/-!
# Reading SELECT

A query is read clause by clause. A sub-query in FROM is read in the same way with a draft of its
own; the count of placeholders goes on through all levels.
-/

set_option autoImplicit false

namespace SqlFront.Reading
open SqlFront.Parser SqlFront.Clause

/-- A query in parentheses, the first of which is skipped already, with the chain of queries that
begins with it. The count of placeholders is handed over and back. -/
def nestedQuery (subQuery : Parser Query (List Query)) : Parser Query (List Query) := do
  let before := (← draft).findings.placeholders
  let (q, inner) ← inside { findings := { kind := .dql, placeholders := before } } subQuery
  onFindings <| modifyDraft fun f => { f with placeholders := q.findings.placeholders }
  expectSymbol .rightParen
  return q :: inner

def behindNestedQuery (rule : ShardingRule) : Parser Query Unit := do
  let _ ← alias?
  onFindings (joins rule)
  if ← skipSymbol .comma then onFindings (tableReferences rule false)

def fromClause (rule : ShardingRule) (subQuery : Parser Query (List Query)) :
    Parser Query (List Query) := do
  if ← skipKeyword .FROM then
    if ← isAtSubQuery then
      advance
      let inner ← nestedQuery subQuery
      behindNestedQuery rule
      return inner
    else
      onFindings (tableReferences rule false)
      return []
  else return []

def queryHead (rule : ShardingRule) : Parser Query Unit := do
  advance
  distinctClause
  skipAll (keywordTypes (← grammar).selectOptions)
  topClause
  selectList rule
  refuseIf [.keyword .INTO]

def queryTail : Parser Query Unit := do
  groupByClause
  havingClause
  orderByClause
  limitClause
  setOperationClause

/-- A query from its first word on, with at most `n` levels. The chain of queries inside it is the
result. -/
def queryLevel (rule : ShardingRule) : Nat → Parser Query (List Query)
  | 0 => throw (.internal .stalled)
  | n + 1 => do
    queryHead rule
    let inner ← fromClause rule (queryLevel rule n)
    onFindings (whereClause rule)
    queryTail
    return inner

def selectStatement (rule : ShardingRule) (catalog : Catalog) : Parser Unit Statement := do
  let (q, inner) ← inside {} (queryLevel rule (← cursor).moves)
  return .select ((SelectStatement.mk q inner).merged.derive catalog)

end SqlFront.Reading
