import SqlFront.Sharding.Rule
import SqlFront.Statement.Query

/-!
# Derived columns

Merging the results of several shards needs columns that the query does not select: the count and
the sum for every average, and every sort key that the select list does not cover. They are staged
as texts, which one edit adds at the end of the select list.
-/

set_option autoImplicit false

namespace SqlFront

namespace Derived

inductive Origin
  | averageCount | averageSum | orderBy | groupBy
deriving DecidableEq

def aliasOf (origin : Origin) (index : Nat) : String :=
  let stem :=
    match origin with
    | .averageCount => "AVG_DERIVED_COUNT_"
    | .averageSum => "AVG_DERIVED_SUM_"
    | .orderBy => "ORDER_BY_DERIVED_"
    | .groupBy => "GROUP_BY_DERIVED_"
  stem ++ toString index

def staged (expression alias_ : String) : String := expression ++ " AS " ++ alias_ ++ " "

/-! ## Averages -/

def averagePart (a : Aggregation) (function : Aggregate) (alias_ : String) :
    Aggregation × String :=
  let part : Aggregation := ⟨function, a.argument, some alias_, []⟩
  (part, staged part.expression alias_)

def average (index : Nat) (a : Aggregation) : Aggregation × List String :=
  let (count, countText) := averagePart a .count (aliasOf .averageCount index)
  let (sum, sumText) := averagePart a .sum (aliasOf .averageSum index)
  ({ a with derived := a.derived ++ [count, sum] }, [countText, sumText])

/-- A select list whose averages have what they are computed from. The number counts the averages
before. -/
def averages : Nat → List SelectItem → List SelectItem × List String
  | _, [] => ([], [])
  | n, item :: rest =>
    match item with
    | .aggregation a =>
      if a.function = .avg then
        let (a, texts) := average n a
        let (items, more) := averages (n + 1) rest
        (.aggregation a :: items, texts ++ more)
      else
        let (items, texts) := averages n rest
        (item :: items, texts)
    | _ =>
      let (items, texts) := averages n rest
      (item :: items, texts)

/-! ## Sort keys -/

def starCovers (catalog : Catalog) (tables : Tables) (key : OrderItem) : SelectItem → Bool
  | .star none => true
  | .star (some star) =>
    match key.owner?, key.name? with
    | some owner, _ => sameName star owner
    | none, some name => (tables.find? star).any fun t => catalog.containsColumn t.name name
    | none, none => false
  | _ => false

/-- The item is the sort key: they have the same alias or, for an item without an alias, the
expression is the name of the key. -/
def isSameItem (key : OrderItem) (item : SelectItem) : Bool :=
  !item.isStar &&
    match item.alias?, key.alias? with
    | some a, some b => sameName a b
    | some _, none => false
    | none, _ => key.qualifiedName?.any fun name => sameName item.expression name

def covers (catalog : Catalog) (tables : Tables) (items : List SelectItem) (key : OrderItem) :
    Bool :=
  key.index?.isSome || items.any (starCovers catalog tables key) || items.any (isSameItem key)

/-- The sort keys, where those that are not covered get an alias, and the texts of these. The
number counts the texts before. -/
def sortKeys (origin : Origin) (covered : OrderItem → Bool) :
    Nat → List OrderItem → List OrderItem × List String
  | _, [] => ([], [])
  | n, key :: rest =>
    match covered key, key.qualifiedName? with
    | false, some name =>
      let alias_ := aliasOf origin n
      let (keys, texts) := sortKeys origin covered (n + 1) rest
      ({ key with alias? := some alias_ } :: keys, staged name alias_ :: texts)
    | _, _ =>
      let (keys, texts) := sortKeys origin covered n rest
      (key :: keys, texts)

end Derived

namespace Query

def addEdit (q : Query) (e : Edit) : Query := { q with findings := q.findings.addEdit e }

def orderAsGrouped (q : Query) : Query :=
  if q.groupBy.isEmpty || !q.orderBy.isEmpty then q
  else { q with orderBy := q.groupBy }.addEdit (.orderBy q.groupByStop)

def derive (catalog : Catalog) (q : Query) : Query :=
  if q.isDerived then q
  else
    let (items, averageTexts) := Derived.averages 0 q.items
    let covered := Derived.covers catalog q.findings.tables items
    let (orderBy, orderTexts) := Derived.sortKeys .orderBy covered 0 q.orderBy
    let (groupBy, groupTexts) := Derived.sortKeys .groupBy covered 0 q.groupBy
    let texts := averageTexts ++ orderTexts ++ groupTexts
    let q :=
      { q with items := items, orderBy := orderBy, groupBy := groupBy, isDerived := true }
    (if texts.isEmpty then q else q.addEdit (.items q.selectListStop texts false)).orderAsGrouped

end Query

namespace SelectStatement

def derive (catalog : Catalog) (s : SelectStatement) : SelectStatement :=
  { s with query := s.query.derive catalog }

end SelectStatement

end SqlFront
