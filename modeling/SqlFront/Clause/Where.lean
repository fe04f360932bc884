import SqlFront.Clause.Expression
import SqlFront.Sharding.Rule

/-!
# WHERE

A WHERE clause is a chain of comparisons joined by AND. Comparisons of a sharding column by `=`,
`IN` and `BETWEEN` with literals and placeholders become conditions; OR is refused.
-/

set_option autoImplicit false

namespace SqlFront.Clause
open SqlFront.Parser

def otherComparisons : List TokenType :=
  [.symbol .less, .symbol .greater, .symbol .lessEqual, .symbol .greaterEqual,
    .symbol .lessGreater, .symbol .bangEqual, .symbol .nullSafeEqual, .symbol .bangGreater,
    .symbol .bangLess]

def patternWords : List TokenType := keywordTypes [.LIKE, .REGEXP]

/-- The column that the left side of a comparison names. An owner is the name or the alias of a
table; a name alone belongs to the only table of the statement. -/
def findColumn? (f : Findings) : Expression → Option Column
  | .property owner name =>
    (f.tables.find? (unquoted owner)).map fun t => ⟨unquoted name, t.name⟩
  | .identifier name => f.tables.singleName?.map fun t => ⟨unquoted name, t⟩
  | _ => none

def recordCondition (rule : ShardingRule) (left : Expression) (operator : ConditionOperator)
    (values : List Expression) : Parser Findings Unit := do
  match findColumn? (← draft) left with
  | some column =>
    if values.all Expression.isShardingValue && rule.isShardingColumn column then
      modifyDraft fun f => f.addCondition ⟨column, operator, values⟩
  | none => return ()

def inValues : Parser Findings (Option (List Expression)) := do
  if ← isAtSubQuery then
    let _ ← skipParentheses
    return none
  else
    expectSymbol .leftParen
    let values ← commaSeparated expression
    expectSymbol .rightParen
    return some values

def betweenValues : Parser Findings (List Expression) := do
  let low ← expression
  expectKeyword .AND
  let high ← expression
  return [low, high]

def pattern : Parser Findings Unit := do
  let _ ← expression
  if ← skipKeyword .ESCAPE then
    let _ ← expression

def negatedComparison : Parser Findings Unit := do
  if ← skipKeyword .IN then
    let _ ← skipParentheses
  else if ← skipKeyword .BETWEEN then
    let _ ← betweenValues
  else if ← skipIf patternWords then pattern

def unrecordedComparison : Parser Findings Unit := do
  if ← skipKeyword .NOT then negatedComparison
  else if ← skipKeyword .IS then
    let _ ← skipKeyword .NOT
    let _ ← expression
  else if ← skipIf patternWords then pattern
  else if ← skipIf otherComparisons then
    let _ ← expression

def comparisonOf (rule : ShardingRule) (left : Expression) : Parser Findings Unit := do
  if ← skipSymbol .equal then
    let right ← expression
    recordCondition rule left .equal [right]
  else if ← skipKeyword .IN then
    match ← inValues with
    | some values => recordCondition rule left .oneOf values
    | none => return ()
  else if ← skipKeyword .BETWEEN then
    let values ← betweenValues
    recordCondition rule left .between values
  else unrecordedComparison

def openParentheses : Parser Findings Nat :=
  repeatFrom 0 fun opened => do
    if ← isAt (.symbol .leftParen) then
      if ← isAtSubQuery then return .inr opened
      else
        advance
        return .inl (opened + 1)
    else return .inr opened

def closeParentheses : Nat → Parser Findings Nat
  | 0 => return 0
  | n + 1 => do
    if ← skipSymbol .rightParen then
      let closed ← closeParentheses n
      return closed + 1
    else return 0

def comparison (rule : ShardingRule) : Parser Findings Unit := do
  let opened ← openParentheses
  let left ← expression
  let closed ← closeParentheses opened
  comparisonOf rule left
  let _ ← closeParentheses (opened - closed)

def whereClause (rule : ShardingRule) : Parser Findings Unit := do
  if ← skipKeyword .WHERE then
    let _ ← separated [.keyword .AND] (comparison rule)
    if ← isAt (.keyword .OR) then failAt Cursor.refusal

end SqlFront.Clause
