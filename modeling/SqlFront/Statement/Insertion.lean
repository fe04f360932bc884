import SqlFront.Statement.Findings

/-!
# Insertions
-/

set_option autoImplicit false

namespace SqlFront

inductive RowForm
  | values | set
deriving DecidableEq

structure InsertRow where
  form : RowForm
  source : String
  placeholders : Nat
deriving DecidableEq

structure GeneratedKey where
  column : Column
  value : Expression
deriving DecidableEq

structure InsertStatement where
  findings : Findings := { kind := .dml }
  columns : List Column := []
  generatedKeys : List GeneratedKey := []
  rows : List InsertRow := []
  /-- The place behind the column list. -/
  columnListStop : Nat := 0
  /-- The position of the generated key in the column list. -/
  generatedKeyIndex? : Option Nat := none
deriving DecidableEq

instance : HasFindings InsertStatement :=
  ⟨InsertStatement.findings, fun s f => { s with findings := f }⟩

namespace GeneratedKey

def same (a b : GeneratedKey) : Bool :=
  a.column == b.column && a.value.sameExpression b.value

end GeneratedKey

namespace InsertStatement

def same (a b : InsertStatement) : Bool :=
  a.findings.same b.findings && a.columns == b.columns &&
    a.generatedKeys.isEqv b.generatedKeys GeneratedKey.same && a.rows == b.rows &&
    a.columnListStop == b.columnListStop && a.generatedKeyIndex? == b.generatedKeyIndex?

end InsertStatement

end SqlFront
