import SqlFront.Statement.Condition
import SqlFront.Text.Name

/-!
# Findings

What reading finds in a statement of any kind: its tables, the conditions on their sharding
columns, the edits and the number of placeholders so far.
-/

set_option autoImplicit false

namespace SqlFront

/-!
## Edits

An edit marks a place of the source text that changes when the statement is sent to a shard. Edits
are applied in the order of their places.
-/

inductive Edit
  /-- The name of a table, with its literals in the source. -/
  | table (start : Nat) (literals : String)
  /-- More items of a list; with `leading` no comma comes before the first one. -/
  | items (start : Nat) (items : List String) (leading : Bool)
  /-- A parenthesis of a column list that the source lacks. -/
  | insertColumn (start : Nat) (text : String)
  /-- The place of an ORDER BY that repeats the GROUP BY. -/
  | orderBy (start : Nat)
  /-- A row of values. -/
  | insertValues (start : Nat) (table : String)
  | offset (start : Nat) (value : Int64)
  | rowCount (start : Nat) (value : Int64)
  /-- The name of an index; its table is not always known. -/
  | index (start : Nat) (name : String) (table : Option String)
deriving DecidableEq

namespace Edit

def start : Edit → Nat
  | .table p _ => p
  | .items p _ _ => p
  | .insertColumn p _ => p
  | .orderBy p => p
  | .insertValues p _ => p
  | .offset p _ => p
  | .rowCount p _ => p
  | .index p _ _ => p

def tableName? : Edit → Option String
  | .table _ literals => some (unquoted literals)
  | _ => none

def sorted (es : List Edit) : List Edit := es.mergeSort (fun a b => a.start ≤ b.start)

end Edit

/-! ## Findings -/

/-- The language that a statement belongs to: query, manipulation, definition, transaction
control, administration or access control. -/
inductive StatementKind
  | dql | dml | ddl | tcl | dal | dcl
deriving DecidableEq

structure Findings where
  kind : StatementKind
  tables : Tables := .empty
  conditions : Conditions := .empty
  edits : List Edit := []
  placeholders : Nat := 0
deriving DecidableEq

namespace Findings

def addEdit (f : Findings) (e : Edit) : Findings := { f with edits := f.edits ++ [e] }

def addTable (f : Findings) (t : Table) : Findings := { f with tables := f.tables.add t }

def addCondition (f : Findings) (c : Condition) : Findings :=
  { f with conditions := f.conditions.add c }

def pushGroup (f : Findings) (g : ConditionGroup) : Findings :=
  { f with conditions := f.conditions.push g }

def countPlaceholder (f : Findings) : Findings := { f with placeholders := f.placeholders + 1 }

def same (a b : Findings) : Bool :=
  a.kind == b.kind && a.tables == b.tables && a.conditions.same b.conditions &&
    a.edits == b.edits && a.placeholders == b.placeholders

end Findings

class HasFindings (σ : Type) where
  findings : σ → Findings
  setFindings : σ → Findings → σ

export HasFindings (findings setFindings)

instance : HasFindings Findings := ⟨id, fun _ f => f⟩

end SqlFront
