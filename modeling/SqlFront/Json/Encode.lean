import SqlFront.Json.Basic
import SqlFront.Statement.Basic

/-!
# Statements as JSON

Every part of a statement has its JSON form. Absent parts are written as `null`.
-/

set_option autoImplicit false

namespace SqlFront

namespace Json

variable {α : Type}

def ofOption (form : α → Json) : Option α → Json
  | some a => form a
  | none => .null

def ofList (form : α → Json) (as : List α) : Json := .array (as.map form)

def ofNat (n : Nat) : Json := .integer n

def tagged (tag : String) (fields : List (String × Json)) : Json :=
  .object (("type", .string tag) :: fields)

end Json

open Json (ofOption ofList ofNat tagged)

def Number.toJson : Number → Json
  | .integer v => .integer v.toInt
  | .decimal v => .decimal v

def Expression.toJson : Expression → Json
  | .identifier name => tagged "identifier" [("name", .string name)]
  | .property owner name => tagged "property" [("owner", .string owner), ("name", .string name)]
  | .number value => tagged "number" [("value", value.toJson)]
  | .text value => tagged "text" [("value", .string value)]
  | .placeholder index => tagged "placeholder" [("index", ofNat index)]
  | .raw source => tagged "ignore" [("expression", .string source)]

def Table.toJson (t : Table) : Json :=
  .object [("name", .string t.name), ("alias", ofOption .string t.alias?)]

def Tables.toJson (ts : Tables) : Json := ofList Table.toJson ts.entries

def Column.toJson (c : Column) : Json :=
  .object [("name", .string c.name), ("table_name", .string c.table)]

def ConditionOperator.toJson : ConditionOperator → Json
  | .equal => .string "Equal"
  | .oneOf => .string "In"
  | .between => .string "Between"

def Condition.toJson (c : Condition) : Json :=
  .object [("column", c.column.toJson), ("operator", c.operator.toJson),
    ("values", ofList Expression.toJson c.values)]

def ConditionGroup.toJson (g : ConditionGroup) : Json :=
  .object [("conditions", ofList Condition.toJson g.conditions)]

def Conditions.toJson (cs : Conditions) : Json :=
  .object [("and_conditions", ofList ConditionGroup.toJson cs.groups)]

def Edit.toJson : Edit → Json
  | .table start literals =>
    tagged "table" [("begin_position", ofNat start), ("original_literals", .string literals)]
  | .items start texts leading =>
    tagged "items" [("begin_position", ofNat start), ("items", ofList .string texts),
      ("first_of_items_special", .bool leading)]
  | .insertColumn start text =>
    tagged "insert_column" [("begin_position", ofNat start), ("column_name", .string text)]
  | .orderBy start => tagged "order_by" [("begin_position", ofNat start)]
  | .insertValues start target =>
    tagged "insert_values" [("begin_position", ofNat start), ("table_name", .string target)]
  | .offset start value =>
    tagged "offset" [("begin_position", ofNat start), ("offset", .integer value.toInt)]
  | .rowCount start value =>
    tagged "row_count" [("begin_position", ofNat start), ("row_count", .integer value.toInt)]
  | .index start name target? =>
    tagged "index" [("begin_position", ofNat start), ("index_name", .string name),
      ("table_name", ofOption .string target?)]

def StatementKind.toJson : StatementKind → Json
  | .dql => .string "Dql"
  | .dml => .string "Dml"
  | .ddl => .string "Ddl"
  | .tcl => .string "Tcl"
  | .dal => .string "Dal"
  | .dcl => .string "Dcl"

def Findings.toJson (f : Findings) : Json :=
  .object [("sql_type", f.kind.toJson), ("tables", f.tables.toJson),
    ("conditions", f.conditions.toJson), ("sql_tokens", ofList Edit.toJson f.edits),
    ("parameters_index", ofNat f.placeholders)]

def Aggregate.toJson : Aggregate → Json
  | .max => .string "Max"
  | .min => .string "Min"
  | .sum => .string "Sum"
  | .count => .string "Count"
  | .avg => .string "Avg"

namespace Aggregation

mutual

def fields : Aggregation → List (String × Json)
  | ⟨function, argument, alias?, derived⟩ =>
    [("aggregation_type", function.toJson), ("inner_expression", .string argument),
      ("alias", ofOption .string alias?), ("derived_aggregation_items", .array (formAll derived))]

def formAll : List Aggregation → List Json
  | [] => []
  | a :: rest => .object (fields a) :: formAll rest

end

end Aggregation

def SelectItem.toJson : SelectItem → Json
  | .star owner? => tagged "star" [("owner", ofOption .string owner?)]
  | .common expression alias? =>
    tagged "common" [("expression", .string expression), ("alias", ofOption .string alias?)]
  | .aggregation call => tagged "aggregation" call.fields

def Direction.toJson : Direction → Json
  | .ascending => .string "Asc"
  | .descending => .string "Desc"

def OrderItem.toJson (x : OrderItem) : Json :=
  .object [("owner", ofOption .string x.owner?), ("name", ofOption .string x.name?),
    ("order_direction", x.direction.toJson), ("null_order_direction", x.nulls.toJson),
    ("index", ofOption ofNat x.index?), ("alias", ofOption .string x.alias?)]

def LimitValue.toJson (v : LimitValue) : Json :=
  .object [("value", ofOption (fun n => .integer n.toInt) v.value?),
    ("index", ofOption ofNat v.index?), ("bound_opened", .bool v.isOpen)]

def RowLimit.toJson (l : RowLimit) : Json :=
  .object [("offset", ofOption LimitValue.toJson l.offset?),
    ("row_count", ofOption LimitValue.toJson l.rowCount?)]

def Query.toJson (q : Query) (inner : Json) : Json :=
  .object [("base", q.findings.toJson), ("contains_star", .bool q.containsStar),
    ("select_list_last_position", ofNat q.selectListStop),
    ("group_by_last_position", ofNat q.groupByStop),
    ("items", ofList SelectItem.toJson q.items),
    ("group_by_items", ofList OrderItem.toJson q.groupBy),
    ("order_by_items", ofList OrderItem.toJson q.orderBy),
    ("limit", ofOption RowLimit.toJson q.limit?),
    ("sub_query_statement", inner), ("derived_columns_appended", .bool q.isDerived)]

def Query.chainToJson : List Query → Json
  | [] => .null
  | q :: rest => q.toJson (chainToJson rest)

def SelectStatement.toJson (s : SelectStatement) : Json := s.query.toJson (Query.chainToJson s.inner)

def RowForm.toJson : RowForm → Json
  | .values => .string "Values"
  | .set => .string "Set"

def InsertRow.toJson (r : InsertRow) : Json :=
  .object [("kind", r.form.toJson), ("expression", .string r.source),
    ("parameters_count", ofNat r.placeholders)]

def GeneratedKey.toJson (k : GeneratedKey) : Json :=
  .object [("column", k.column.toJson), ("value", k.value.toJson)]

def InsertStatement.toJson (s : InsertStatement) : Json :=
  .object [("base", s.findings.toJson), ("columns", ofList Column.toJson s.columns),
    ("generated_key_conditions", ofList GeneratedKey.toJson s.generatedKeys),
    ("insert_values", ofList InsertRow.toJson s.rows),
    ("columns_list_last_position", ofNat s.columnListStop),
    ("generate_key_column_index", ofOption ofNat s.generatedKeyIndex?)]

def DefinitionKind.toJson : DefinitionKind → Json
  | .createTable => .string "CreateTable"
  | .alterTable => .string "AlterTable"
  | .dropTable => .string "DropTable"
  | .truncateTable => .string "TruncateTable"
  | .createIndex => .string "CreateIndex"
  | .alterIndex => .string "AlterIndex"
  | .dropIndex => .string "DropIndex"

def AccessKind.toJson : AccessKind → Json
  | .grant => .string "Grant"
  | .revoke => .string "Revoke"
  | .deny => .string "Deny"
  | .create => .string "Create"
  | .alter => .string "Alter"
  | .drop => .string "Drop"
  | .rename => .string "Rename"

def Principal.toJson : Principal → Json
  | .user => .string "User"
  | .role => .string "Role"
  | .login => .string "Login"

def TransactionKind.toJson : TransactionKind → Json
  | .set => .string "Set"
  | .commit => .string "Commit"
  | .rollback => .string "Rollback"
  | .savepoint => .string "Savepoint"
  | .begin => .string "Begin"

def AdministrationKind.toJson : AdministrationKind → Json
  | .use schema => .object [("Use", .object [("schema", .string schema)])]
  | .describe => .string "Describe"
  | .showDatabases => .string "ShowDatabases"
  | .showTables schema? =>
    .object [("ShowTables", .object [("schema", ofOption .string schema?)])]
  | .showColumns => .string "ShowColumns"
  | .showCreateTable => .string "ShowCreateTable"
  | .showIndex => .string "ShowIndex"
  | .showOther => .string "ShowOther"

def Statement.toJson : Statement → Json
  | .select s => .object [("Select", s.toJson)]
  | .insert s => .object [("Insert", s.toJson)]
  | .update f => .object [("Update", .object [("base", f.toJson)])]
  | .delete f => .object [("Delete", .object [("base", f.toJson)])]
  | .definition f kind =>
    .object [("Ddl", .object [("base", f.toJson), ("kind", kind.toJson)])]
  | .access f kind principal? =>
    .object [("Dcl", .object [("base", f.toJson), ("kind", kind.toJson),
      ("principal", ofOption Principal.toJson principal?)])]
  | .transaction f kind =>
    .object [("Tcl", .object [("base", f.toJson), ("kind", kind.toJson)])]
  | .administration f kind =>
    .object [("Dal", .object [("base", f.toJson), ("kind", kind.toJson)])]

end SqlFront
