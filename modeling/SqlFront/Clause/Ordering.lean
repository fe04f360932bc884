import SqlFront.Clause.Expression
import SqlFront.Statement.Query

/-!
# GROUP BY and ORDER BY
-/

set_option autoImplicit false

namespace SqlFront.Clause
open SqlFront.Parser

def direction {σ : Type} : Parser σ Direction := do
  if ← skipKeyword .DESC then return .descending
  else
    let _ ← skipKeyword .ASC
    return .ascending

/-- The sort key that an expression is. A placeholder is none, and a number has to be the position
of a column. `stop` is the end of the expression. -/
def orderItem? (q : Query) (stop : Nat) (direction nulls : Direction) :
    Expression → Except Fault (Option OrderItem)
  | .text value => .ok (some (.ofName (unquoted value) direction nulls none))
  | .number value =>
    if 0 < value.truncate then .ok (some (.ofIndex value.truncate.toNat direction nulls))
    else .error (.malformed stop (.columnIndex value))
  | .identifier name =>
    .ok (some (.ofName (unquoted name) direction nulls (q.alias? (unquoted name))))
  | .property owner name =>
    let owner := unquoted owner
    let name := unquoted name
    .ok (some (.ofOwner owner name direction nulls (q.alias? (owner ++ "." ++ name))))
  | .raw source => .ok (some (.ofName source direction nulls (q.alias? source)))
  | .placeholder _ => .ok none

def orderItem (direction nulls : Direction) (e : Expression) : Parser Query (Option OrderItem) := do
  match orderItem? (← draft) (← cursor).previousStop direction nulls e with
  | .ok item? => return item?
  | .error fault => throw fault

def groupByItem : Parser Query Unit := do
  let e ← onFindings expression
  let direction ← direction
  match ← orderItem direction .ascending e with
  | some item => modifyDraft fun q => { q with groupBy := q.groupBy ++ [item] }
  | none => pure ()

def groupByClause : Parser Query Unit := do
  if ← skipKeyword .GROUP then
    expectKeyword .BY
    discard <| commaSeparated groupByItem
    skipAll (keywordTypes (← grammar).afterGroupBy)
    let stop := (← cursor).previousStop
    modifyDraft fun q => { q with groupByStop := stop }

def havingClause {σ : Type} : Parser σ Unit := refuseIf [.keyword .HAVING]

def orderByItem : Parser Query (Option OrderItem) := do
  let e ← onFindings expression
  let direction ← direction
  if ← skipKeyword .NULLS then
    let _ ← skipIf (keywordTypes [.FIRST, .LAST])
  orderItem direction (← grammar).nullsOrder e

def orderByClause : Parser Query Unit := do
  if ← skipKeyword .ORDER then
    if (← grammar).orderBySiblings then
      let _ ← skipKeyword .SIBLINGS
    expectKeyword .BY
    let items ← commaSeparated orderByItem
    modifyDraft fun q => { q with orderBy := q.orderBy ++ items.filterMap id }

end SqlFront.Clause
