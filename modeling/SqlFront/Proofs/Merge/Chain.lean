import SqlFront.Proofs.Edit.Sorting
import SqlFront.Proofs.Merge
import SqlFront.Proofs.Table.Single

/-!
# The merge of a chain of queries

A chain is merged from the inside to the outside, one query at a time. What comes out is said here of
the whole chain at once: which parts of all queries are joined together, and which query alone gives
a part.
-/

set_option autoImplicit false

namespace SqlFront

namespace SelectStatement

variable {s : SelectStatement}

def levels (s : SelectStatement) : List Query := s.query :: s.inner

def outward (s : SelectStatement) : List Query := s.levels.reverse

theorem levels_ne_nil (s : SelectStatement) : s.levels ≠ [] := List.cons_ne_nil _ _

def innermost (s : SelectStatement) : Query := s.levels.getLast s.levels_ne_nil

def around (s : SelectStatement) : List Query := s.levels.dropLast

/-- The query whose select list stands for the chain: the first one from the outside without a star,
or else the innermost. -/
def listed (s : SelectStatement) : Query :=
  (s.around.find? fun q => !q.containsStar).getD s.innermost

def ordering (s : SelectStatement) : Query :=
  (s.outward.find? fun q => !q.orderBy.isEmpty).getD s.query

def grouping (s : SelectStatement) : Query :=
  (s.outward.find? fun q => !q.groupBy.isEmpty).getD s.query

structure MergedTo (s : SelectStatement) (m : Query) : Prop where
  kind : m.findings.kind = s.innermost.findings.kind
  groups : m.findings.conditions.groups = s.outward.flatMap fun q => q.findings.conditions.groups
  edits : Edit.StableSort (s.outward.flatMap fun q => q.findings.edits) m.findings.edits
  /-- No edit is lost or doubled. -/
  sameEdits : m.findings.edits.Perm (s.outward.flatMap fun q => q.findings.edits)
  tables : m.findings.tables = s.innermost.findings.tables.extend
    ⟨s.around.reverse.flatMap fun q => q.findings.tables.entries⟩
  /-- All references of the chain are added one by one, each once, unless the innermost query has one
  of them twice. -/
  distinctTables :
    Tables.empty.extend ⟨s.outward.flatMap fun q => q.findings.tables.entries⟩ =
      m.findings.tables ↔ s.innermost.findings.tables.Distinct
  placeholders : IsGreatest {n | ∃ q ∈ s.levels, q.findings.placeholders = n}
    m.findings.placeholders
  items : m.items = s.listed.items
  containsStar : m.containsStar = s.listed.containsStar
  selectListStop : m.selectListStop = s.listed.selectListStop
  orderBy : m.orderBy = s.ordering.orderBy
  groupBy : m.groupBy = s.grouping.groupBy
  groupByStop : m.groupByStop = s.grouping.groupByStop
  limit : m.limit?.isSome ↔ ∃ q ∈ s.levels, q.limit?.isSome
  offset : m.limit?.bind RowLimit.offset? =
    s.outward.findSome? fun q => q.limit?.bind RowLimit.offset?
  rowCount : m.limit?.bind RowLimit.rowCount? =
    s.outward.findSome? fun q => q.limit?.bind RowLimit.rowCount?
  isDerived : m.isDerived = s.innermost.isDerived

end SelectStatement

namespace Query

variable {q r : Query} {inner : List Query}

/-! ## One step -/

theorem outward_cons : (SelectStatement.mk q (r :: inner)).outward =
    (SelectStatement.mk r inner).outward ++ [q] := by
  simp [SelectStatement.outward, SelectStatement.levels]

theorem innermost_cons : (SelectStatement.mk q (r :: inner)).innermost =
    (SelectStatement.mk r inner).innermost := by
  simp [SelectStatement.innermost, SelectStatement.levels]

theorem around_cons : (SelectStatement.mk q (r :: inner)).around =
    q :: (SelectStatement.mk r inner).around := by
  simp [SelectStatement.around, SelectStatement.levels]

theorem listed_cons : (SelectStatement.mk q (r :: inner)).listed =
    if q.containsStar then (SelectStatement.mk r inner).listed else q := by
  rw [SelectStatement.listed, SelectStatement.listed, around_cons, innermost_cons, List.find?_cons]
  cases q.containsStar <;> rfl

theorem found_cons {α : Type} (part : Query → List α) :
    (((SelectStatement.mk q (r :: inner)).outward.find? fun x => !(part x).isEmpty).getD q) =
      if part (((SelectStatement.mk r inner).outward.find? fun x => !(part x).isEmpty).getD r) = []
      then q
      else (((SelectStatement.mk r inner).outward.find? fun x => !(part x).isEmpty).getD r) := by
  rw [outward_cons, List.find?_append]
  cases hfind : (SelectStatement.mk r inner).outward.find? fun x => !(part x).isEmpty with
  | some x =>
    have hx : part x ≠ [] := by simpa using List.find?_some hfind
    simp [hx]
  | none =>
    have hr : part r = [] := by
      simpa using List.find?_eq_none.1 hfind r
        (List.mem_reverse.2 List.mem_cons_self)
    cases hq : part q <;> simp [hr, hq]

/-! ## Joined parts -/

theorem mergeChain_groups : (q.mergeChain inner).findings.conditions.groups =
    (SelectStatement.mk q inner).outward.flatMap fun q => q.findings.conditions.groups := by
  induction inner generalizing q with
  | nil => simp [mergeChain, SelectStatement.outward, SelectStatement.levels]
  | cons r inner ih =>
    rw [outward_cons, List.flatMap_append, ← ih]
    simp [mergeChain, absorb, Findings.absorb, Conditions.merge]

theorem mergeChain_edits : ((q.mergeChain (r :: inner)).findings.edits) =
    Edit.sorted ((SelectStatement.mk q (r :: inner)).outward.flatMap
      fun q => q.findings.edits) := by
  induction inner generalizing q r with
  | nil => simp [mergeChain, absorb, Findings.absorb, SelectStatement.outward,
      SelectStatement.levels]
  | cons r' inner ih =>
    rw [outward_cons, List.flatMap_append, ← Edit.sorted_append_sorted, ← ih]
    simp [mergeChain, absorb, Findings.absorb]

theorem mergeChain_tables : (q.mergeChain inner).findings.tables =
    (SelectStatement.mk q inner).innermost.findings.tables.extend
      ⟨(SelectStatement.mk q inner).around.reverse.flatMap fun q => q.findings.tables.entries⟩ := by
  induction inner generalizing q with
  | nil => rfl
  | cons r inner ih =>
    rw [innermost_cons, around_cons, List.reverse_cons, List.flatMap_append,
      Tables.extend_append, ← ih]
    simp [mergeChain, absorb, Findings.absorb]

theorem mergeChain_count : IsGreatest {n | ∃ r ∈ q :: inner, r.findings.placeholders = n}
    (q.mergeChain inner).findings.placeholders := by
  induction inner generalizing q with
  | nil => simp [mergeChain, IsGreatest, upperBounds]
  | cons r inner ih =>
    have hmax : (q.mergeChain (r :: inner)).findings.placeholders =
        max (r.mergeChain inner).findings.placeholders q.findings.placeholders := rfl
    have hset : {n | ∃ x ∈ q :: r :: inner, x.findings.placeholders = n} =
        {n | ∃ x ∈ r :: inner, x.findings.placeholders = n} ∪ {q.findings.placeholders} := by
      ext n
      simp [eq_comm]
    rw [hmax, hset]
    exact ih.union isGreatest_singleton

/-! ## Parts of one query -/

theorem mergeChain_listed : (q.mergeChain inner).items = (SelectStatement.mk q inner).listed.items ∧
    (q.mergeChain inner).containsStar = (SelectStatement.mk q inner).listed.containsStar ∧
    (q.mergeChain inner).selectListStop =
      (SelectStatement.mk q inner).listed.selectListStop := by
  induction inner generalizing q with
  | nil => exact ⟨rfl, rfl, rfl⟩
  | cons r inner ih =>
    obtain ⟨hitems, hstar, hstop⟩ := ih (q := r)
    rw [listed_cons]
    cases h : q.containsStar <;> simp [mergeChain, absorb, h, hitems, hstar, hstop]

theorem mergeChain_ordering :
    (q.mergeChain inner).orderBy = (SelectStatement.mk q inner).ordering.orderBy := by
  induction inner generalizing q with
  | nil => cases h : q.orderBy <;>
      simp [mergeChain, SelectStatement.ordering, SelectStatement.outward, SelectStatement.levels, h]
  | cons r inner ih =>
    rw [SelectStatement.ordering, found_cons Query.orderBy, mergeChain, absorb]
    simp only [List.isEmpty_iff, ih]
    unfold SelectStatement.ordering
    split <;> rfl

theorem mergeChain_grouping :
    (q.mergeChain inner).groupBy = (SelectStatement.mk q inner).grouping.groupBy ∧
      (q.mergeChain inner).groupByStop = (SelectStatement.mk q inner).grouping.groupByStop := by
  induction inner generalizing q with
  | nil => cases h : q.groupBy <;>
      simp [mergeChain, SelectStatement.grouping, SelectStatement.outward, SelectStatement.levels, h]
  | cons r inner ih =>
    obtain ⟨hgroup, hstop⟩ := ih (q := r)
    rw [SelectStatement.grouping, found_cons Query.groupBy, mergeChain, absorb]
    simp only [List.isEmpty_iff, hgroup, hstop]
    unfold SelectStatement.grouping
    split <;> exact ⟨rfl, rfl⟩

/-! ## Limits -/

theorem absorbLimit_isSome {outer inner : Option RowLimit} :
    (absorbLimit outer inner).isSome ↔ outer.isSome ∨ inner.isSome := by
  cases outer <;> cases inner <;> simp [absorbLimit]

theorem absorbLimit_part {part : RowLimit → Option LimitValue}
    (hpart : ∀ l m : RowLimit, part (l.orElse m) = (part l).or (part m))
    (outer inner : Option RowLimit) :
    (absorbLimit outer inner).bind part = (inner.bind part).or (outer.bind part) := by
  cases outer <;> cases inner <;> simp [absorbLimit, hpart]

theorem mergeChain_limit_isSome :
    (q.mergeChain inner).limit?.isSome ↔ ∃ r ∈ q :: inner, r.limit?.isSome := by
  induction inner generalizing q with
  | nil => simp [mergeChain]
  | cons r inner ih =>
    have h : (q.mergeChain (r :: inner)).limit?.isSome ↔
        q.limit?.isSome ∨ (r.mergeChain inner).limit?.isSome := absorbLimit_isSome
    rw [h, ih]
    simp

theorem mergeChain_limit_part {part : RowLimit → Option LimitValue}
    (hpart : ∀ l m : RowLimit, part (l.orElse m) = (part l).or (part m)) :
    (q.mergeChain inner).limit?.bind part =
      (SelectStatement.mk q inner).outward.findSome? fun r => r.limit?.bind part := by
  induction inner generalizing q with
  | nil => simp [mergeChain, SelectStatement.outward, SelectStatement.levels]
  | cons r inner ih =>
    rw [outward_cons, List.findSome?_append, ← ih]
    exact (absorbLimit_part hpart q.limit? (r.mergeChain inner).limit?).trans (by simp)

/-! ## The rest -/

/-- What a merge takes from the inner query comes from the innermost one. -/
theorem mergeChain_inner {α : Type} (part : Query → α)
    (hpart : ∀ q r : Query, part (q.absorb r) = part r) :
    part (q.mergeChain inner) = part (SelectStatement.mk q inner).innermost := by
  induction inner generalizing q with
  | nil => rfl
  | cons r inner ih => rw [mergeChain, hpart, ih, innermost_cons]

end Query

namespace SelectStatement

variable {s : SelectStatement}

theorem outward_eq : s.outward = s.innermost :: s.around.reverse := by
  rw [outward, innermost, around, ← List.reverse_concat, List.dropLast_concat_getLast]

/-- The merge of a chain of at least two queries has no queries in FROM. Conditions, edits and tables
of all queries are joined from the inside to the outside, and every other part is that of one query. -/
theorem merged_closed (h : s.inner ≠ []) : s.merged.inner = [] ∧ s.MergedTo s.merged.query := by
  obtain ⟨q, _ | ⟨r, inner⟩⟩ := s
  · exact (h rfl).elim
  have hedits : Edit.StableSort ((mk q (r :: inner)).outward.flatMap fun q => q.findings.edits)
      (q.mergeChain (r :: inner)).findings.edits :=
    Query.mergeChain_edits ▸ Edit.sorted_stable _
  refine ⟨rfl, ?_⟩
  exact {
    kind := Query.mergeChain_inner (fun q => q.findings.kind) fun _ _ => rfl
    groups := Query.mergeChain_groups
    edits := hedits
    sameEdits := hedits.perm
    tables := Query.mergeChain_tables
    distinctTables := by
      rw [outward_eq, List.flatMap_cons, merged, Query.mergeChain_tables]
      exact Tables.extend_empty_iff
    placeholders := Query.mergeChain_count
    items := Query.mergeChain_listed.1
    containsStar := Query.mergeChain_listed.2.1
    selectListStop := Query.mergeChain_listed.2.2
    orderBy := Query.mergeChain_ordering
    groupBy := Query.mergeChain_grouping.1
    groupByStop := Query.mergeChain_grouping.2
    limit := Query.mergeChain_limit_isSome
    offset := Query.mergeChain_limit_part fun _ _ => rfl
    rowCount := Query.mergeChain_limit_part fun _ _ => rfl
    isDerived := Query.mergeChain_inner (fun q => q.isDerived) fun _ _ => rfl }

/-- A star with a whole limit around a list around an offset. -/
theorem merged_closed_three : ∃ s : SelectStatement, s.levels.length = 3 ∧ s.inner ≠ [] ∧
    s.merged.inner = [] ∧ s.MergedTo s.merged.query ∧
    s.merged.query.items = [.star (some "o")] ∧
    s.merged.query.limit? = some ⟨some (.literal 1), some (.literal 2)⟩ := by
  obtain ⟨s, hs⟩ : ∃ s : SelectStatement, s = mk
      { containsStar := true, limit? := some ⟨some (.literal 5), some (.literal 2)⟩ }
      [{ items := [.star (some "o")] }, { limit? := some ⟨some (.literal 1), none⟩ }] := ⟨_, rfl⟩
  have hne : s.inner ≠ [] := by
    rw [hs]
    exact List.cons_ne_nil _ _
  obtain ⟨hinner, hmerged⟩ := merged_closed hne
  refine ⟨s, ?_, hne, hinner, hmerged, ?_, ?_⟩ <;> rw [hs] <;> rfl

/-- A reference that stands twice in the list of the innermost query is kept twice. -/
theorem repeated_reference_kept : ¬∀ s : SelectStatement, s.inner ≠ [] →
    s.merged.query.findings.tables =
      Tables.empty.extend ⟨s.outward.flatMap fun q => q.findings.tables.entries⟩ := by
  intro h
  have htwice := h ⟨{}, [{ findings := ⟨.dql, ⟨[⟨"t", none⟩, ⟨"t", none⟩]⟩, .empty, [], 0⟩ }]⟩
    (List.cons_ne_nil _ _)
  exact absurd htwice (by decide)

end SelectStatement

end SqlFront
