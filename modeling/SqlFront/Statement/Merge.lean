import SqlFront.Statement.Query

/-!
# Merging sub-queries

A chain of queries in FROM is merged into one query. The innermost query is completed by the ones
around it: it gets their tables, conditions and edits, the select list of the outermost query
without a star, and the sort keys, grouping and limit that the queries inside do not have.
-/

set_option autoImplicit false

namespace SqlFront

namespace Findings

def absorb (outer inner : Findings) : Findings :=
  { inner with
    tables := inner.tables.extend outer.tables
    conditions := inner.conditions.merge outer.conditions
    edits := Edit.sorted (inner.edits ++ outer.edits)
    placeholders := max inner.placeholders outer.placeholders }

end Findings

namespace Query

def absorbLimit : Option RowLimit → Option RowLimit → Option RowLimit
  | some outer, some inner => some (inner.orElse outer)
  | outer, inner => inner.or outer

def absorb (outer inner : Query) : Query :=
  { findings := outer.findings.absorb inner.findings
    containsStar := outer.containsStar && inner.containsStar
    selectListStop := if outer.containsStar then inner.selectListStop else outer.selectListStop
    groupByStop := if inner.groupBy.isEmpty then outer.groupByStop else inner.groupByStop
    items := if outer.containsStar then inner.items else outer.items
    groupBy := if inner.groupBy.isEmpty then outer.groupBy else inner.groupBy
    orderBy := if inner.orderBy.isEmpty then outer.orderBy else inner.orderBy
    limit? := absorbLimit outer.limit? inner.limit?
    isDerived := inner.isDerived }

def mergeChain : Query → List Query → Query
  | q, [] => q
  | q, r :: rest => q.absorb (mergeChain r rest)

end Query

namespace SelectStatement

def merged (s : SelectStatement) : SelectStatement := ⟨s.query.mergeChain s.inner, []⟩

end SelectStatement

end SqlFront
