import SqlFront.Dialect.Basic
import SqlFront.Statement.Findings
import SqlFront.Text.Name
import SqlFront.Token.Keyword

/-!
# Queries

A query is one level of a SELECT. A SELECT statement is its outermost query with the chain of the
queries that stand in FROM, one inside the other.
-/

set_option autoImplicit false

namespace SqlFront

/-! ## Row limits -/

/-- One part of a row limit: a literal value or the ordinal of a placeholder. An open bound is not
part of the range itself. -/
structure LimitValue where
  value? : Option Int64
  index? : Option Nat
  isOpen : Bool
deriving DecidableEq

namespace LimitValue

def literal (value : Int64) : LimitValue := ⟨some value, none, false⟩

def placeholder (index : Nat) : LimitValue := ⟨none, some index, false⟩

end LimitValue

structure RowLimit where
  offset? : Option LimitValue
  rowCount? : Option LimitValue
deriving DecidableEq

namespace RowLimit

def isEmpty (l : RowLimit) : Bool := l.offset?.isNone && l.rowCount?.isNone

def orElse (l other : RowLimit) : RowLimit :=
  ⟨l.offset?.or other.offset?, l.rowCount?.or other.rowCount?⟩

end RowLimit

/-!
## Items of ORDER BY and GROUP BY

An item is a column, by name, or the position of a column in the select list.
-/

structure OrderItem where
  owner? : Option String
  name? : Option String
  direction : Direction
  nulls : Direction
  index? : Option Nat
  alias? : Option String
deriving DecidableEq

namespace OrderItem

def ofName (name : String) (direction nulls : Direction) (alias? : Option String) : OrderItem :=
  ⟨none, some name, direction, nulls, none, alias?⟩

def ofOwner (owner name : String) (direction nulls : Direction) (alias? : Option String) :
    OrderItem :=
  ⟨some owner, some name, direction, nulls, none, alias?⟩

def ofIndex (index : Nat) (direction nulls : Direction) : OrderItem :=
  ⟨none, none, direction, nulls, some index, none⟩

def label? (x : OrderItem) : Option String := x.alias?.or x.name?

def qualifiedName? (x : OrderItem) : Option String :=
  x.name?.map fun name =>
    match x.owner? with
    | some owner => owner ++ "." ++ name
    | none => name

def sharedName (a b : Option String) : Bool :=
  match a, b with
  | some a, some b => sameName a b
  | _, _ => false

/-- Two items sort alike when their directions agree and so do their labels, their qualified
names or their positions. -/
def sortsLike (x y : OrderItem) : Bool :=
  x.direction == y.direction &&
    (sharedName x.label? y.label? || sharedName x.qualifiedName? y.qualifiedName? ||
      (x.index?.isSome && x.index? == y.index?))

end OrderItem

/-! ## Items of a select list -/

inductive Aggregate
  | max | min | sum | count | avg
deriving DecidableEq

namespace Aggregate

def spelling : Aggregate → String
  | .max => "MAX"
  | .min => "MIN"
  | .sum => "SUM"
  | .count => "COUNT"
  | .avg => "AVG"

def ofKeyword? : Keyword → Option Aggregate
  | .MAX => some .max
  | .MIN => some .min
  | .SUM => some .sum
  | .COUNT => some .count
  | .AVG => some .avg
  | _ => none

end Aggregate

/-- The call of an aggregate function. The argument keeps its parentheses. `derived` are the calls
that merging the results of several shards needs besides it. -/
structure Aggregation where
  function : Aggregate
  argument : String
  alias? : Option String
  derived : List Aggregation

namespace Aggregation

def expression (a : Aggregation) : String := withoutSpaces (a.function.spelling ++ a.argument)

def label (a : Aggregation) : String := a.alias?.getD a.expression

mutual

def same : Aggregation → Aggregation → Bool
  | ⟨f, x, a, ds⟩, ⟨g, y, b, es⟩ => f == g && x == y && a == b && sameAll ds es

def sameAll : List Aggregation → List Aggregation → Bool
  | [], [] => true
  | d :: ds, e :: es => same d e && sameAll ds es
  | _, _ => false

end

end Aggregation

inductive SelectItem
  /-- All columns, or all of one table. -/
  | star (owner? : Option String)
  /-- An expression, by its text without quotes. -/
  | common (expression : String) (alias? : Option String)
  | aggregation (call : Aggregation)

namespace SelectItem

def expression : SelectItem → String
  | .star none => "*"
  | .star (some owner) => owner ++ ".*"
  | .common expression _ => expression
  | .aggregation call => call.expression

def alias? : SelectItem → Option String
  | .star _ => none
  | .common _ alias? => alias?
  | .aggregation call => call.alias?

def isStar : SelectItem → Bool
  | .star _ => true
  | _ => false

def same : SelectItem → SelectItem → Bool
  | .star a, .star b => a == b
  | .common e a, .common f b => e == f && a == b
  | .aggregation a, .aggregation b => a.same b
  | _, _ => false

end SelectItem

/-! ## Queries -/

structure Query where
  findings : Findings := { kind := .dql }
  /-- Some item of the select list is a bare `*`. -/
  containsStar : Bool := false
  /-- The start of the first token behind the select list. -/
  selectListStop : Nat := 0
  /-- The end of the last token of GROUP BY. -/
  groupByStop : Nat := 0
  items : List SelectItem := []
  groupBy : List OrderItem := []
  orderBy : List OrderItem := []
  limit? : Option RowLimit := none
  /-- The derived columns have been added. -/
  isDerived : Bool := false

instance : HasFindings Query := ⟨Query.findings, fun q f => { q with findings := f }⟩

namespace Query

/-- The alias under which the select list offers a name of ORDER BY or GROUP BY: the alias of an
item with this expression, or the name itself where it is the alias of an item. The first item
that fits decides, and a list with a star offers no alias. -/
def alias? (q : Query) (name : String) : Option String :=
  if q.containsStar then none else go q.items
where
  go : List SelectItem → Option String
    | [] => none
    | item :: items =>
      if sameName (withoutSpaces (unquoted name)) (withoutSpaces (unquoted item.expression)) then
        item.alias?
      else if item.alias?.any (fun a => sameName (unquoted name) a) then some (unquoted name)
      else go items

/-- Equality of queries. Sort keys count as equal when they sort alike, numbers when they have the
same value. -/
def same (a b : Query) : Bool :=
  a.findings.same b.findings && a.containsStar == b.containsStar &&
    a.selectListStop == b.selectListStop && a.groupByStop == b.groupByStop &&
    a.items.isEqv b.items SelectItem.same && a.groupBy.isEqv b.groupBy OrderItem.sortsLike &&
    a.orderBy.isEqv b.orderBy OrderItem.sortsLike && a.limit? == b.limit? &&
    a.isDerived == b.isDerived

end Query

structure SelectStatement where
  query : Query
  inner : List Query := []

namespace SelectStatement

def same (a b : SelectStatement) : Bool :=
  a.query.same b.query && a.inner.isEqv b.inner Query.same

end SelectStatement

end SqlFront
