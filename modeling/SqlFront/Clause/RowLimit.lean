import SqlFront.Parser
import SqlFront.Statement.Query

/-!
# Row limits

`LIMIT` and `OFFSET` at the end of a query, or `TOP` before its select list. A literal value is a
place to edit; a placeholder is known by its ordinal.
-/

set_option autoImplicit false

namespace SqlFront.Clause
open SqlFront.Parser

inductive LimitPart
  | offset | rowCount
deriving DecidableEq

namespace LimitPart

def edit (part : LimitPart) (start : Nat) (value : Int64) : Edit :=
  match part with
  | .offset => .offset start value
  | .rowCount => .rowCount start value

end LimitPart

def literalValue (part : LimitPart) : Parser Findings LimitValue := do
  if ← isAt (.literal .int) then
    let t ← current
    match Number.int64? 10 t.literals.toList with
    | some value =>
      modifyDraft fun f => f.addEdit (part.edit t.start value)
      advance
      return .literal value
    | none => failAt fun c => c.unexpected .rowCount
  else failAt fun c => c.unexpected .integerOrPlaceholder

def limitValue (part : LimitPart) : Parser Findings (Option LimitValue) := do
  if ← skipKeyword .ALL then return none
  else if ← isAt (.symbol .question) then
    let index ← countPlaceholder
    advance
    return some (.placeholder index)
  else return some (← literalValue part)

def limitPart (word : Keyword) (part : LimitPart) : Parser Findings (Option LimitValue) := do
  if ← skipKeyword word then limitValue part else return none

def offsetAndRowCount : Parser Findings RowLimit := do
  let offset? ← limitValue .offset
  expectSymbol .comma
  let rowCount? ← limitValue .rowCount
  return ⟨offset?, rowCount?⟩

def limitValues (comma : Bool) : Parser Findings RowLimit := do
  let offsetFirst ← if comma then isAhead (.symbol .comma) else pure false
  if offsetFirst then offsetAndRowCount
  else
    let rowCount? ← limitValue .rowCount
    let offset? ← limitPart .OFFSET .offset
    return ⟨offset?, rowCount?⟩

def limitAndOffset (comma : Bool) : Parser Findings RowLimit := do
  if ← skipKeyword .LIMIT then limitValues comma
  else if ← skipKeyword .OFFSET then
    let offset? ← limitValue .offset
    let rowCount? ← limitPart .LIMIT .rowCount
    return ⟨offset?, rowCount?⟩
  else return ⟨none, none⟩

def limitClause : Parser Query Unit := do
  match (← grammar).rowLimit with
  | .limit comma =>
    let limit ← onFindings (limitAndOffset comma)
    if !limit.isEmpty then modifyDraft fun q => { q with limit? := some limit }
  | _ => pure ()

def topValue : Parser Findings (Option LimitValue) := do
  if ← skipSymbol .leftParen then
    let value? ← limitValue .rowCount
    expectSymbol .rightParen
    return value?
  else limitValue .rowCount

def topClause : Parser Query Unit := do
  if (← grammar).rowLimit == .top then
    if ← skipKeyword .TOP then
      let rowCount? ← onFindings topValue
      let _ ← skipKeyword .PERCENT
      if ← skipKeyword .WITH then expectKeyword .TIES
      if rowCount?.isSome then
        modifyDraft fun q => { q with limit? := some ⟨none, rowCount?⟩ }

end SqlFront.Clause
