import SqlFront.Clause.Expression
import SqlFront.Sharding.Rule
import SqlFront.Statement.Query

/-!
# Select lists

An item is a star, the call of an aggregate function, or an expression that is kept as text.
-/

set_option autoImplicit false

namespace SqlFront.Clause
open SqlFront.Parser

def distinctClause {σ : Type} : Parser σ Unit := do
  let _ ← skipKeyword .ALL
  refuseIf (keywordTypes (.DISTINCT :: (← grammar).distinctSynonyms))

def skipCase : Parser Findings Unit :=
  repeatFrom 0 fun depth => do
    match (← current).type with
    | .keyword .CASE =>
      advance
      return .inl (depth + 1)
    | .symbol .question =>
      let _ ← countPlaceholder
      advance
      return .inl depth
    | .keyword .END =>
      advance
      if depth ≤ 1 then return .inr () else return .inl (depth - 1)
    | .endOfText => return .inr ()
    | _ =>
      advance
      return .inl depth

def aggregationItem (function : Aggregate) : Parser Query SelectItem := do
  advance
  let argument ← onFindings skipParentheses
  let alias? ← alias?
  return .aggregation ⟨function, "(" ++ argument ++ ")", alias?, []⟩

/-- What stands behind an owner and its dot: the star of the owner, which is a whole item, or a
name. An owner that the rule knows is a place to edit. -/
def ownedOperand (rule : ShardingRule) (t : Token) : Parser Findings (Option SelectItem) := do
  let owner := unquoted t.literals
  if rule.containsTable owner then modifyDraft fun f => f.addEdit (.table t.start t.literals)
  if ← skipSymbol .star then return some (.star (some owner))
  else
    advance
    return none

def operandRest (rule : ShardingRule) (t : Token) : Parser Findings (Option SelectItem) := do
  if ← isAt (.symbol .leftParen) then
    let _ ← skipParentheses
    return none
  else if ← skipSymbol .dot then ownedOperand rule t
  else return none

def firstOperand (rule : ShardingRule) : Parser Findings (Option SelectItem) := do
  let t ← current
  if ← isAt (.keyword .CASE) then
    skipCase
    return none
  else
    skipToken
    operandRest rule t

def nextOperand : Parser Findings Bool := do
  if isNegativeNumber (← current) then
    advance
    return true
  else if ← skipIf operators then
    if ← isAt (.keyword .CASE) then skipCase else skipOperand
    return true
  else return false

def commonItem (rule : ShardingRule) : Parser Findings SelectItem := do
  let start := (← current).start
  match ← firstOperand rule with
  | some item => return item
  | none =>
    whileM nextOperand (return ())
    let c ← cursor
    let source := unquoted (trimmed (c.slice start c.previousStop))
    let alias? ← alias?
    return .common source alias?

def aggregateHere? {σ : Type} : Parser σ (Option Aggregate) := do
  match (← current).type.keyword?.bind Aggregate.ofKeyword? with
  | some function =>
    if ← isAhead (.symbol .leftParen) then return some function else return none
  | none => return none

def selectItem (rule : ShardingRule) : Parser Query SelectItem := do
  let _ ← skipIf (keywordTypes (← grammar).beforeSelectItem)
  if ← skipSymbol .star then
    modifyDraft fun q => { q with containsStar := true }
    return .star none
  else
    match ← aggregateHere? with
    | some function => aggregationItem function
    | none => onFindings (commonItem rule)

def selectList (rule : ShardingRule) : Parser Query Unit := do
  discard <| commaSeparated do
    let item ← selectItem rule
    modifyDraft fun q => { q with items := q.items ++ [item] }
  let stop := (← current).start
  modifyDraft fun q => { q with selectListStop := stop }

def setOperationClause {σ : Type} : Parser σ Unit := do
  refuseIf (keywordTypes (← grammar).setOperations)

end SqlFront.Clause
