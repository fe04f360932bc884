import SqlFront.Clause.Expression
import SqlFront.Sharding.Rule

/-!
# Table references

The tables of FROM, of JOIN and of the statements that change one table. A reference is recorded
when the rule knows the table or gives the other tables a place, and always where only one table
is allowed.
-/

set_option autoImplicit false

namespace SqlFront.Clause
open SqlFront.Parser

def joinWords : List Keyword := [.INNER, .OUTER, .LEFT, .RIGHT, .FULL, .CROSS, .NATURAL, .JOIN]

def joinComparisons : List TokenType :=
  [.symbol .equal, .symbol .greater, .symbol .less, .symbol .greaterEqual, .symbol .lessEqual,
    .symbol .lessGreater, .symbol .bangEqual]

def skipIndexHints : Parser Findings Unit := do
  if (← grammar).indexHints then
    whileM (skipIf (keywordTypes [.USE, .IGNORE, .FORCE])) do
      let _ ← skipIf (keywordTypes [.INDEX, .KEY])
      if ← skipKeyword .FOR then
        advance
        let _ ← skipKeyword .BY
      let _ ← skipParentheses

def tableToken : Parser Findings Token := do
  let t ← current
  advance
  if ← isAt (.symbol .dot) then throw (.unsupported t.start (.schemaTable t.literals))
  return t

def tableFactor (rule : ShardingRule) (single : Bool) : Parser Findings Unit := do
  let t ← tableToken
  let name := unquoted t.literals
  let alias? ← alias?
  if single || rule.containsTable name || rule.hasDefault then
    modifyDraft fun f => (f.addEdit (.table t.start t.literals)).addTable ⟨name, alias?⟩
  skipIndexHints

def joinType : Parser Findings Bool := do
  let words := keywordTypes (joinWords ++ (← grammar).joins)
  if ← isAtAny words then
    skipAll words
    return true
  else return false

def joinCondition : Parser Findings Unit := do
  if ← skipKeyword .ON then
    discard <| separated [.keyword .AND] do
      let _ ← expression
      if !(← skipIf joinComparisons) then expectSymbol .equal
      let _ ← expression
  else if ← skipKeyword .USING then
    let _ ← skipParentheses

def joins (rule : ShardingRule) : Parser Findings Unit :=
  whileM joinType do
    if ← isAt (.symbol .leftParen) then failAt fun c => .unsupported c.current.start .joinedSubQuery
    tableFactor rule false
    joinCondition

def tableReferences (rule : ShardingRule) (single : Bool) : Parser Findings Unit := do
  let start := (← current).start
  discard <| commaSeparated do
    tableFactor rule single
    joins rule
  if single && !(← draft).tables.isSingle then throw (.unsupported start .severalTables)

def bareTable : Parser Findings Unit := do
  let t ← tableToken
  modifyDraft fun f =>
    (f.addEdit (.table t.start t.literals)).addTable ⟨unquoted t.literals, none⟩

end SqlFront.Clause
