import SqlFront.Json.Basic
import SqlFront.Statement.Query

/-!
# Queries from JSON

The forms of queries and of their parts are read back. An optional part may be absent or `null`.
-/

set_option autoImplicit false

namespace SqlFront

namespace Json

variable {α : Type}

def asBool? : Json → Option Bool
  | .bool b => some b
  | _ => none

def asString? : Json → Option String
  | .string s => some s
  | _ => none

def asNat? : Json → Option Nat
  | .integer i => i.toNat?
  | _ => none

def asInt64? : Json → Option Int64
  | .integer i => Number.ofInt? i
  | _ => none

def asList? (element : Json → Option α) : Json → Option (List α)
  | .array vs => vs.mapM element
  | _ => none

def optional? (part : Json → Option α) : Option Json → Option (Option α)
  | none => some none
  | some .null => some none
  | some v => (part v).map some

def get? (part : Json → Option α) (name : String) (j : Json) : Option α :=
  (j.field? name).bind part

def getOptional? (part : Json → Option α) (name : String) (j : Json) : Option (Option α) :=
  optional? part (j.field? name)

end Json

open Json

def Number.ofJson? : Json → Option Number
  | .integer i =>
    match Number.ofInt? i with
    | some v => some (.integer v)
    | none => some (.decimal (Binary64.ofRatio (i < 0) i.natAbs 1))
  | .decimal x => some (.decimal x)
  | _ => none

def Expression.ofJson? (j : Json) : Option Expression := do
  match ← j.get? asString? "type" with
  | "identifier" => return .identifier (← j.get? asString? "name")
  | "property" => return .property (← j.get? asString? "owner") (← j.get? asString? "name")
  | "number" => return .number (← j.get? Number.ofJson? "value")
  | "text" => return .text (← j.get? asString? "value")
  | "placeholder" => return .placeholder (← j.get? asNat? "index")
  | "ignore" => return .raw (← j.get? asString? "expression")
  | _ => none

def Table.ofJson? (j : Json) : Option Table := do
  return ⟨← j.get? asString? "name", ← j.getOptional? asString? "alias"⟩

def Tables.ofJson? (j : Json) : Option Tables := do return ⟨← j.asList? Table.ofJson?⟩

def Column.ofJson? (j : Json) : Option Column := do
  return ⟨← j.get? asString? "name", ← j.get? asString? "table_name"⟩

def ConditionOperator.ofJson? : Json → Option ConditionOperator
  | .string "Equal" => some .equal
  | .string "In" => some .oneOf
  | .string "Between" => some .between
  | _ => none

def Condition.ofJson? (j : Json) : Option Condition := do
  return ⟨← j.get? Column.ofJson? "column", ← j.get? ConditionOperator.ofJson? "operator",
    ← j.get? (asList? Expression.ofJson?) "values"⟩

def ConditionGroup.ofJson? (j : Json) : Option ConditionGroup := do
  return ⟨← j.get? (asList? Condition.ofJson?) "conditions"⟩

def Conditions.ofJson? (j : Json) : Option Conditions := do
  return ⟨← j.get? (asList? ConditionGroup.ofJson?) "and_conditions"⟩

def Edit.ofJson? (j : Json) : Option Edit := do
  let start ← j.get? asNat? "begin_position"
  match ← j.get? asString? "type" with
  | "table" => return .table start (← j.get? asString? "original_literals")
  | "items" =>
    return .items start (← j.get? (asList? asString?) "items")
      (← j.get? asBool? "first_of_items_special")
  | "insert_column" => return .insertColumn start (← j.get? asString? "column_name")
  | "order_by" => return .orderBy start
  | "insert_values" => return .insertValues start (← j.get? asString? "table_name")
  | "offset" => return .offset start (← j.get? asInt64? "offset")
  | "row_count" => return .rowCount start (← j.get? asInt64? "row_count")
  | "index" =>
    return .index start (← j.get? asString? "index_name") (← j.getOptional? asString? "table_name")
  | _ => none

def StatementKind.ofJson? : Json → Option StatementKind
  | .string "Dql" => some .dql
  | .string "Dml" => some .dml
  | .string "Ddl" => some .ddl
  | .string "Tcl" => some .tcl
  | .string "Dal" => some .dal
  | .string "Dcl" => some .dcl
  | _ => none

def Findings.ofJson? (j : Json) : Option Findings := do
  return {
    kind := ← j.get? StatementKind.ofJson? "sql_type"
    tables := ← j.get? Tables.ofJson? "tables"
    conditions := ← j.get? Conditions.ofJson? "conditions"
    edits := ← j.get? (asList? Edit.ofJson?) "sql_tokens"
    placeholders := ← j.get? asNat? "parameters_index" }

def Aggregate.ofJson? : Json → Option Aggregate
  | .string "Max" => some .max
  | .string "Min" => some .min
  | .string "Sum" => some .sum
  | .string "Count" => some .count
  | .string "Avg" => some .avg
  | _ => none

def Aggregation.ofJsonWithin? : Nat → Json → Option Aggregation
  | 0, _ => none
  | n + 1, j => do
    return ⟨← j.get? Aggregate.ofJson? "aggregation_type", ← j.get? asString? "inner_expression",
      ← j.getOptional? asString? "alias",
      ← j.get? (asList? (ofJsonWithin? n)) "derived_aggregation_items"⟩

def Aggregation.ofJson? (j : Json) : Option Aggregation := ofJsonWithin? j.depth j

def SelectItem.ofJson? (j : Json) : Option SelectItem := do
  match ← j.get? asString? "type" with
  | "star" => return .star (← j.getOptional? asString? "owner")
  | "common" =>
    return .common (← j.get? asString? "expression") (← j.getOptional? asString? "alias")
  | "aggregation" => return .aggregation (← Aggregation.ofJson? j)
  | _ => none

def Direction.ofJson? : Json → Option Direction
  | .string "Asc" => some .ascending
  | .string "Desc" => some .descending
  | _ => none

def OrderItem.ofJson? (j : Json) : Option OrderItem := do
  return ⟨← j.getOptional? asString? "owner", ← j.getOptional? asString? "name",
    ← j.get? Direction.ofJson? "order_direction", ← j.get? Direction.ofJson? "null_order_direction",
    ← j.getOptional? asNat? "index", ← j.getOptional? asString? "alias"⟩

def LimitValue.ofJson? (j : Json) : Option LimitValue := do
  return ⟨← j.getOptional? asInt64? "value", ← j.getOptional? asNat? "index",
    ← j.get? asBool? "bound_opened"⟩

def RowLimit.ofJson? (j : Json) : Option RowLimit := do
  return ⟨← j.getOptional? LimitValue.ofJson? "offset",
    ← j.getOptional? LimitValue.ofJson? "row_count"⟩

def Query.ofJson? (j : Json) : Option Query := do
  return {
    findings := ← j.get? Findings.ofJson? "base"
    containsStar := ← j.get? asBool? "contains_star"
    selectListStop := ← j.get? asNat? "select_list_last_position"
    groupByStop := ← j.get? asNat? "group_by_last_position"
    items := ← j.get? (asList? SelectItem.ofJson?) "items"
    groupBy := ← j.get? (asList? OrderItem.ofJson?) "group_by_items"
    orderBy := ← j.get? (asList? OrderItem.ofJson?) "order_by_items"
    limit? := ← j.getOptional? RowLimit.ofJson? "limit"
    isDerived := ← j.get? asBool? "derived_columns_appended" }

def Query.chainOfJson? : Nat → Option Json → Option (List Query)
  | _, none => some []
  | _, some .null => some []
  | 0, some _ => none
  | n + 1, some j => do
    return (← Query.ofJson? j) :: (← chainOfJson? n (j.field? "sub_query_statement"))

def SelectStatement.ofJson? (j : Json) : Option SelectStatement := do
  return ⟨← Query.ofJson? j, ← Query.chainOfJson? j.depth (j.field? "sub_query_statement")⟩

end SqlFront
