import SqlFront.Clause.Expression
import SqlFront.Clause.InsertRows
import SqlFront.Clause.Ordering
import SqlFront.Clause.RowLimit
import SqlFront.Clause.SelectList
import SqlFront.Clause.TableReference
import SqlFront.Clause.Where
import SqlFront.Proofs.Fault.Sited

/-!
# Where clauses fail

Most clauses fail at the token that they stand on. A table with a schema and several tables where
one is allowed are refused at a token that the cursor has passed, whose place is kept; a column
index that is none is told from the end of the key, which is where the cursor comes from.
-/

set_option autoImplicit false

namespace SqlFront.Clause

open SqlFront.Parser

variable {d : Dialect} {sql : String} {rule : ShardingRule} {σ : Type}

/-! ## Expressions -/

theorem sited_skipOperand : SitedAny d sql skipOperand := by
  have hrest : SitedAny d sql (do
      if ← isAt (.symbol .leftParen) then
        let _ ← skipParentheses
      else
        advance
        let _ ← skipParentheses) := by
    refine sited_isAt.next fun b => .ite ?_ (sited_advance.next fun _ => ?_)
    · exact sited_skipParentheses.next fun _ => .pure trivial
    · exact sited_skipParentheses.next fun _ => .pure trivial
  refine sited_isAt.next fun b => .ite ?_ hrest
  exact sited_countPlaceholder.next fun _ => hrest

theorem sited_skipOperations : SitedAny d sql skipOperations :=
  .whileM sited_skipIf sited_skipOperand

theorem sited_skipContinuation : SitedAny d sql skipContinuation := by
  refine sited_isAtAny.next fun b => .ite ?_ (sited_current.any.next fun t => ?_)
  · exact sited_skipOperations.next fun _ => .pure trivial
  · exact .ite (sited_advance.next fun _ => .pure trivial) (.pure trivial)

theorem sited_rawFrom (start : ℕ) : SitedAny d sql (rawFrom start) :=
  sited_cursor.any.next fun _ => .pure trivial

theorem sited_primary : SitedAny d sql primary := by
  refine sited_isAt.next fun b => .ite ?_ ?_
  · exact sited_countPlaceholder.next fun n => .pure trivial
  · exact sited_current.any.next fun t => .pure trivial

theorem sited_operandChain : SitedAny d sql operandChain := by
  have hcall (start : ℕ) : SitedAny d sql (do
      let _ ← skipParentheses
      skipOperations
      rawFrom start) :=
    sited_skipParentheses.next fun _ => sited_skipOperations.next fun _ => sited_rawFrom start
  refine sited_current.any.next fun t => sited_isAt.next fun b => .ite (hcall t.start) ?_
  refine sited_primary.next fun e => sited_advance.next fun _ => ?_
  refine sited_skipSymbol.next fun b => .ite ?_ (sited_isAt.next fun b => .ite (hcall t.start) ?_)
  · refine sited_current.any.next fun u => sited_advance.next fun _ => ?_
    exact sited_skipContinuation.next fun b => .ite (sited_rawFrom _) (.pure trivial)
  · exact sited_skipContinuation.next fun b => .ite (sited_rawFrom _) (.pure trivial)

theorem sited_expression : SitedAny d sql expression := by
  refine sited_current.any.next fun t => sited_operandChain.next fun e => ?_
  cases e with
  | property owner name =>
    refine sited_draft.next fun _ => .ite ?_ (.pure trivial)
    exact sited_modifyDraft.next fun _ => .pure trivial
  | _ => exact .pure trivial

theorem sited_nameHere : SitedAny d sql (nameHere : Parser σ String) :=
  sited_current.any.next fun _ => sited_advance.next fun _ => .pure trivial

theorem sited_alias? : SitedAny d sql (alias? : Parser σ (Option String)) := by
  have hname : SitedAny d sql (do return some (← nameHere) : Parser σ (Option String)) :=
    sited_nameHere.next fun _ => .pure trivial
  refine sited_skipKeyword.next fun b => .ite ?_ ?_
  · exact sited_current.any.next fun t => .ite (.pure trivial) hname
  · exact sited_isAtAny.next fun b => .ite hname (.pure trivial)

/-! ## Assignments -/

theorem sited_assignmentSign : SitedAny d sql assignmentSign := by
  refine sited_skipIf.next fun b => .ite ?_ (.pure trivial)
  exact sited_expect

theorem sited_assignment : SitedAny d sql assignment := by
  have hrest : SitedAny d sql (do
      assignmentSign
      let _ ← expression
      whileM (skipSymbol .doubleColon) advance) := by
    refine sited_assignmentSign.next fun _ => sited_expression.next fun _ => ?_
    exact .whileM sited_skipSymbol sited_advance
  refine sited_isAt.next fun b => .ite ?_ ?_
  · exact sited_skipParentheses.next fun _ => hrest
  · exact sited_expression.next fun _ => hrest

theorem sited_updateAssignments : SitedAny d sql updateAssignments :=
  sited_expect.next fun _ => .discard (.commaSeparated sited_assignment)

/-! ## Tables -/

theorem sited_skipIndexHints : SitedAny d sql skipIndexHints := by
  refine sited_grammar.next fun _ => .ite (.whileM sited_skipIf ?_) (.pure trivial)
  refine sited_skipIf.next fun _ => sited_skipKeyword.next fun b => .ite ?_ ?_
  · refine sited_advance.next fun _ => sited_skipKeyword.next fun _ => ?_
    exact sited_skipParentheses.next fun _ => .pure trivial
  · exact sited_skipParentheses.next fun _ => .pure trivial

theorem sited_tableToken : SitedAny d sql tableToken := by
  refine sited_current.bind fun t ht => sited_advance.next fun _ => sited_isAt.next fun b => ?_
  exact .ite (.throw ⟨t, ht, rfl⟩) (.pure trivial)

theorem sited_tableFactor (single : Bool) : SitedAny d sql (tableFactor rule single) := by
  refine sited_tableToken.next fun t => sited_alias?.next fun a => .ite ?_ sited_skipIndexHints
  exact sited_modifyDraft.next fun _ => sited_skipIndexHints

theorem sited_joinType : SitedAny d sql joinType := by
  refine sited_grammar.next fun _ => sited_isAtAny.next fun b => .ite ?_ (.pure trivial)
  exact sited_skipAll.next fun _ => .pure trivial

theorem sited_joinCondition : SitedAny d sql joinCondition := by
  refine sited_skipKeyword.next fun b => .ite (.discard (.separated ?_)) ?_
  · refine sited_expression.next fun _ => sited_skipIf.next fun b => .ite ?_ ?_
    · exact sited_expect.next fun _ => sited_expression.next fun _ => .pure trivial
    · exact sited_expression.next fun _ => .pure trivial
  · refine sited_skipKeyword.next fun b => .ite ?_ (.pure trivial)
    exact sited_skipParentheses.next fun _ => .pure trivial

theorem sited_joins : SitedAny d sql (joins rule) := by
  have hjoined : SitedAny d sql (do
      tableFactor rule false
      joinCondition) :=
    (sited_tableFactor false).next fun _ => sited_joinCondition
  refine .whileM sited_joinType (sited_isAt.next fun b => .ite ?_ hjoined)
  exact .next (.failAt fun c hc => ⟨c.current, hc.current, rfl⟩) fun _ => hjoined

theorem sited_tableReferences (single : Bool) : SitedAny d sql (tableReferences rule single) := by
  have htable : SitedAny d sql (do
      tableFactor rule single
      joins rule) :=
    (sited_tableFactor single).next fun _ => sited_joins
  refine sited_current.bind fun t ht => (Sited.discard (.commaSeparated htable)).next fun _ => ?_
  cases single with
  | false => exact .pure trivial
  | true => exact sited_draft.next fun _ => .ite (.throw ⟨t, ht, rfl⟩) (.pure trivial)

theorem sited_bareTable : SitedAny d sql bareTable :=
  sited_tableToken.next fun _ => sited_modifyDraft

/-! ## WHERE -/

theorem sited_recordCondition (left : Expression) (operator : ConditionOperator)
    (values : List Expression) : SitedAny d sql (recordCondition rule left operator values) := by
  refine sited_draft.next fun f => ?_
  split
  · exact .ite sited_modifyDraft (.pure trivial)
  · exact .pure trivial

theorem sited_inValues : SitedAny d sql inValues := by
  refine sited_isAtSubQuery.next fun b => .ite ?_ ?_
  · exact sited_skipParentheses.next fun _ => .pure trivial
  · refine sited_expect.next fun _ => (Sited.commaSeparated sited_expression).next fun _ => ?_
    exact sited_expect.next fun _ => .pure trivial

theorem sited_betweenValues : SitedAny d sql betweenValues := by
  refine sited_expression.next fun _ => sited_expect.next fun _ => ?_
  exact sited_expression.next fun _ => .pure trivial

theorem sited_pattern : SitedAny d sql pattern := by
  refine sited_expression.next fun _ => sited_skipKeyword.next fun b => .ite ?_ (.pure trivial)
  exact sited_expression.next fun _ => .pure trivial

theorem sited_negatedComparison : SitedAny d sql negatedComparison := by
  refine sited_skipKeyword.next fun b => .ite ?_ (sited_skipKeyword.next fun b => .ite ?_ ?_)
  · exact sited_skipParentheses.next fun _ => .pure trivial
  · exact sited_betweenValues.next fun _ => .pure trivial
  · exact sited_skipIf.next fun b => .ite sited_pattern (.pure trivial)

theorem sited_unrecordedComparison : SitedAny d sql unrecordedComparison := by
  refine sited_skipKeyword.next fun b => .ite sited_negatedComparison ?_
  refine sited_skipKeyword.next fun b => .ite ?_ ?_
  · exact sited_skipKeyword.next fun _ => sited_expression.next fun _ => .pure trivial
  · refine sited_skipIf.next fun b => .ite sited_pattern ?_
    refine sited_skipIf.next fun b => .ite ?_ (.pure trivial)
    exact sited_expression.next fun _ => .pure trivial

theorem sited_comparisonOf (left : Expression) : SitedAny d sql (comparisonOf rule left) := by
  refine sited_skipSymbol.next fun b => .ite ?_ (sited_skipKeyword.next fun b => .ite ?_ ?_)
  · exact sited_expression.next fun right => sited_recordCondition left _ _
  · refine sited_inValues.next fun values? => ?_
    cases values? with
    | none => exact .pure trivial
    | some values => exact sited_recordCondition left _ _
  · refine sited_skipKeyword.next fun b => .ite ?_ sited_unrecordedComparison
    exact sited_betweenValues.next fun values => sited_recordCondition left _ _

theorem sited_openParentheses : SitedAny d sql openParentheses := by
  refine .repeatFrom (A := fun _ => True) (fun opened _ => ?_) trivial
  refine sited_isAt.next fun b => .ite (sited_isAtSubQuery.next fun b => .ite ?_ ?_) ?_
  · exact .pure trivial
  · exact sited_advance.next fun _ => .pure trivial
  · exact .pure trivial

theorem sited_closeParentheses (n : ℕ) : SitedAny d sql (closeParentheses n) := by
  induction n with
  | zero => exact .pure trivial
  | succ n ih =>
    refine sited_skipSymbol.next fun b => .ite ?_ (.pure trivial)
    exact ih.next fun _ => .pure trivial

theorem sited_comparison : SitedAny d sql (comparison rule) := by
  refine sited_openParentheses.next fun opened => sited_expression.next fun left => ?_
  refine (sited_closeParentheses opened).next fun closed => ?_
  refine (sited_comparisonOf left).next fun _ => ?_
  exact (sited_closeParentheses _).next fun _ => .pure trivial

theorem sited_whereClause : SitedAny d sql (whereClause rule) := by
  refine sited_skipKeyword.next fun b => .ite ?_ (.pure trivial)
  refine (Sited.separated sited_comparison).next fun _ => sited_isAt.next fun b => ?_
  exact .ite (.failAt fun c hc => hc.toStandsOn.refusal) (.pure trivial)

/-! ## GROUP BY and ORDER BY -/

theorem sited_direction : SitedAny d sql (direction : Parser σ Direction) := by
  refine sited_skipKeyword.next fun b => .ite (.pure trivial) ?_
  exact sited_skipKeyword.next fun _ => .pure trivial

theorem orderItem?_fault {q : Query} {stop : ℕ} {x nulls : Direction} {e : Expression}
    {fault : Fault} (h : orderItem? q stop x nulls e = .error fault) :
    ∃ v, fault = .malformed stop (.columnIndex v) := by
  cases e with
  | number v =>
    simp only [orderItem?] at h
    split at h
    · cases h
    · exact ⟨v, (Except.error.inj h).symm⟩
  | _ => cases h

theorem sited_orderItem (x nulls : Direction) (e : Expression) :
    SitedAny d sql (orderItem x nulls e) := by
  refine sited_draft.next fun q => sited_cursor.bind fun c hc => ?_
  cases hitem : orderItem? q c.previousStop x nulls e with
  | ok item? => exact .pure trivial
  | error fault =>
    obtain ⟨v, rfl⟩ := orderItem?_fault hitem
    exact .throw hc.previous

theorem sited_groupByItem : SitedAny d sql groupByItem := by
  refine (Sited.onFindings sited_expression).next fun e => sited_direction.next fun x => ?_
  refine (sited_orderItem x .ascending e).next fun item? => ?_
  cases item? with
  | none => exact .pure trivial
  | some item => exact sited_modifyDraft

theorem sited_groupByClause : SitedAny d sql groupByClause := by
  refine sited_skipKeyword.next fun b => .ite ?_ (.pure trivial)
  refine sited_expect.next fun _ => ?_
  refine (Sited.discard (.commaSeparated sited_groupByItem)).next fun _ => ?_
  refine sited_grammar.next fun _ => sited_skipAll.next fun _ => ?_
  exact sited_cursor.any.next fun _ => sited_modifyDraft

theorem sited_havingClause : SitedAny d sql (havingClause : Parser σ Unit) :=
  sited_refuseIf

theorem sited_orderByItem : SitedAny d sql orderByItem := by
  have hitem (x : Direction) (e : Expression) : SitedAny d sql (do
      orderItem x (← grammar).nullsOrder e) :=
    sited_grammar.next fun g => sited_orderItem x g.nullsOrder e
  refine (Sited.onFindings sited_expression).next fun e => sited_direction.next fun x => ?_
  refine sited_skipKeyword.next fun b => .ite ?_ (hitem x e)
  exact sited_skipIf.next fun _ => hitem x e

theorem sited_orderByClause : SitedAny d sql orderByClause := by
  have hkeys : SitedAny d sql (do
      expectKeyword .BY
      let items ← commaSeparated orderByItem
      modifyDraft fun q => { q with orderBy := q.orderBy ++ items.filterMap id }) := by
    refine sited_expect.next fun _ => (Sited.commaSeparated sited_orderByItem).next fun items => ?_
    exact sited_modifyDraft
  refine sited_skipKeyword.next fun b => .ite ?_ (.pure trivial)
  refine sited_grammar.next fun g => .ite ?_ hkeys
  exact sited_skipKeyword.next fun _ => hkeys

/-! ## Row limits -/

theorem sited_literalValue (part : LimitPart) : SitedAny d sql (literalValue part) := by
  refine sited_isAt.next fun b => .ite (sited_current.any.next fun t => ?_) ?_
  · split
    · exact sited_modifyDraft.next fun _ => sited_advance.next fun _ => .pure trivial
    · exact .failAt fun c hc => hc.toStandsOn.unexpected _
  · exact .failAt fun c hc => hc.toStandsOn.unexpected _

theorem sited_limitValue (part : LimitPart) : SitedAny d sql (limitValue part) := by
  refine sited_skipKeyword.next fun b => .ite (.pure trivial) (sited_isAt.next fun b => .ite ?_ ?_)
  · exact sited_countPlaceholder.next fun n => sited_advance.next fun _ => .pure trivial
  · exact (sited_literalValue part).next fun _ => .pure trivial

theorem sited_limitPart (word : Keyword) (part : LimitPart) :
    SitedAny d sql (limitPart word part) :=
  sited_skipKeyword.next fun _ => .ite (sited_limitValue part) (.pure trivial)

theorem sited_offsetAndRowCount : SitedAny d sql offsetAndRowCount := by
  refine (sited_limitValue .offset).next fun offset? => sited_expect.next fun _ => ?_
  exact (sited_limitValue .rowCount).next fun _ => .pure trivial

theorem sited_limitValues (comma : Bool) : SitedAny d sql (limitValues comma) := by
  have hfirst : ∀ offsetFirst : Bool, SitedAny d sql (do
      if offsetFirst then offsetAndRowCount
      else
        let rowCount? ← limitValue .rowCount
        let offset? ← limitPart .OFFSET .offset
        return ⟨offset?, rowCount?⟩) := by
    refine fun offsetFirst => .ite sited_offsetAndRowCount ?_
    refine (sited_limitValue .rowCount).next fun _ => ?_
    exact (sited_limitPart .OFFSET .offset).next fun _ => .pure trivial
  cases comma with
  | false => exact hfirst false
  | true => exact sited_isAhead.next hfirst

theorem sited_limitAndOffset (comma : Bool) : SitedAny d sql (limitAndOffset comma) := by
  refine sited_skipKeyword.next fun b => .ite (sited_limitValues comma) ?_
  refine sited_skipKeyword.next fun b => .ite ?_ (.pure trivial)
  refine (sited_limitValue .offset).next fun _ => ?_
  exact (sited_limitPart .LIMIT .rowCount).next fun _ => .pure trivial

theorem sited_limitClause : SitedAny d sql limitClause := by
  refine sited_grammar.next fun g => ?_
  split
  · refine (Sited.onFindings (sited_limitAndOffset _)).next fun limit => ?_
    exact .ite sited_modifyDraft (.pure trivial)
  · exact .pure trivial

theorem sited_topValue : SitedAny d sql topValue := by
  refine sited_skipSymbol.next fun b => .ite ?_ (sited_limitValue .rowCount)
  exact (sited_limitValue .rowCount).next fun _ => sited_expect.next fun _ => .pure trivial

theorem sited_topClause : SitedAny d sql topClause := by
  have hlimit (rowCount? : Option LimitValue) : SitedAny d sql (do
      if rowCount?.isSome then
        modifyDraft fun q : Query => { q with limit? := some ⟨none, rowCount?⟩ }) :=
    .ite sited_modifyDraft (.pure trivial)
  refine sited_grammar.next fun g => .ite ?_ (.pure trivial)
  refine sited_skipKeyword.next fun b => .ite ?_ (.pure trivial)
  refine (Sited.onFindings sited_topValue).next fun rowCount? => sited_skipKeyword.next fun _ => ?_
  refine sited_skipKeyword.next fun b => .ite ?_ (hlimit rowCount?)
  exact sited_expect.next fun _ => hlimit rowCount?

/-! ## Select lists -/

theorem sited_distinctClause : SitedAny d sql (distinctClause : Parser σ Unit) := by
  refine sited_skipKeyword.next fun _ => sited_grammar.next fun g => ?_
  exact sited_refuseIf

theorem sited_skipCase : SitedAny d sql skipCase := by
  refine .repeatFrom (A := fun _ => True) (fun depth _ => ?_) trivial
  refine sited_current.any.next fun t => ?_
  split
  · exact sited_advance.next fun _ => .pure trivial
  · exact sited_countPlaceholder.next fun _ => sited_advance.next fun _ => .pure trivial
  · exact sited_advance.next fun _ => .ite (.pure trivial) (.pure trivial)
  · exact .pure trivial
  · exact sited_advance.next fun _ => .pure trivial

theorem sited_aggregationItem (function : Aggregate) :
    SitedAny d sql (aggregationItem function) := by
  refine sited_advance.next fun _ => (Sited.onFindings sited_skipParentheses).next fun _ => ?_
  exact sited_alias?.next fun _ => .pure trivial

theorem sited_ownedOperand (t : Token) : SitedAny d sql (ownedOperand rule t) := by
  have hbehind : SitedAny d sql (do
      if ← skipSymbol .star then return some (SelectItem.star (some (unquoted t.literals)))
      else
        advance
        return none : Parser Findings (Option SelectItem)) := by
    refine sited_skipSymbol.next fun b => .ite (.pure trivial) ?_
    exact sited_advance.next fun _ => .pure trivial
  exact .ite (sited_modifyDraft.next fun _ => hbehind) hbehind

theorem sited_operandRest (t : Token) : SitedAny d sql (operandRest rule t) := by
  refine sited_isAt.next fun b => .ite ?_ ?_
  · exact sited_skipParentheses.next fun _ => .pure trivial
  · exact sited_skipSymbol.next fun b => .ite (sited_ownedOperand t) (.pure trivial)

theorem sited_firstOperand : SitedAny d sql (firstOperand rule) := by
  refine sited_current.any.next fun t => sited_isAt.next fun b => .ite ?_ ?_
  · exact sited_skipCase.next fun _ => .pure trivial
  · exact sited_skipToken.next fun _ => sited_operandRest t

theorem sited_nextOperand : SitedAny d sql nextOperand := by
  refine sited_current.any.next fun t => .ite ?_ (sited_skipIf.next fun b => ?_)
  · exact sited_advance.next fun _ => .pure trivial
  · refine .ite (sited_isAt.next fun b => .ite ?_ ?_) (.pure trivial)
    · exact sited_skipCase.next fun _ => .pure trivial
    · exact sited_skipOperand.next fun _ => .pure trivial

theorem sited_commonItem : SitedAny d sql (commonItem rule) := by
  refine sited_current.any.next fun t => sited_firstOperand.next fun item? => ?_
  cases item? with
  | some item => exact .pure trivial
  | none =>
    refine (Sited.whileM sited_nextOperand (.pure trivial)).next fun _ => ?_
    exact sited_cursor.any.next fun _ => sited_alias?.next fun _ => .pure trivial

theorem sited_aggregateHere? : SitedAny d sql (aggregateHere? : Parser σ (Option Aggregate)) := by
  refine sited_current.any.next fun t => ?_
  split
  · exact sited_isAhead.next fun b => .ite (.pure trivial) (.pure trivial)
  · exact .pure trivial

theorem sited_selectItem : SitedAny d sql (selectItem rule) := by
  refine sited_grammar.next fun g => sited_skipIf.next fun _ => sited_skipSymbol.next fun b => ?_
  refine .ite (sited_modifyDraft.next fun _ => .pure trivial) ?_
  refine sited_aggregateHere?.next fun function? => ?_
  cases function? with
  | some function => exact sited_aggregationItem function
  | none => exact .onFindings sited_commonItem

theorem sited_selectList : SitedAny d sql (selectList rule) := by
  have hitem : SitedAny d sql (do
      let item ← selectItem rule
      modifyDraft fun q => { q with items := q.items ++ [item] }) :=
    sited_selectItem.next fun _ => sited_modifyDraft
  refine (Sited.discard (.commaSeparated hitem)).next fun _ => ?_
  exact sited_current.any.next fun t => sited_modifyDraft

theorem sited_setOperationClause : SitedAny d sql (setOperationClause : Parser σ Unit) :=
  sited_grammar.next fun _ => sited_refuseIf

/-!
## Where the clauses of INSERT fail

A row is refused where it begins, and a column or an assignment at its own first token. Their places
are kept while the values behind them are read.
-/

/-! ## The target and its columns -/

theorem sited_insertTable : SitedAny d sql insertTable := by
  refine sited_draft.next fun s => ?_
  split
  · exact .pure trivial
  · exact .throw trivial

theorem sited_intoClause : SitedAny d sql intoClause := by
  refine sited_grammar.next fun g => sited_refuseIf.next fun _ => sited_skipUntil.next fun _ => ?_
  refine sited_expect.next fun _ => (Sited.onFindings sited_bareTable).next fun _ => ?_
  exact .whileM sited_skipIf ((Sited.onFindings sited_skipParentheses).next fun _ => .pure trivial)

theorem sited_columnName :
    Sited d sql columnName fun r => ∃ t, IsTokenOf d sql t ∧ r.2 = t.start := by
  refine sited_current.bind fun t ht => (Sited.onFindings sited_expression).next fun e => ?_
  cases e.columnName? with
  | some name => exact .pure ⟨t, ht, rfl⟩
  | none => exact .throw ⟨t, ht, rfl⟩

theorem sited_writtenColumns (table : String) : SitedAny d sql (writtenColumns rule table) := by
  refine .next (.discard (.commaSeparated (sited_columnName.any.next fun _ => ?_))) fun _ => ?_
  · exact sited_modifyDraft
  · exact sited_current.any.next fun t => sited_modifyDraft.next fun _ => sited_expect

theorem sited_columnList (catalog : Catalog) : SitedAny d sql (columnList rule catalog) := by
  refine sited_insertTable.next fun table => sited_skipSymbol.next fun b => ?_
  refine .ite (sited_writtenColumns table) (.ite ?_ (.pure trivial))
  exact sited_current.any.next fun t => sited_modifyDraft

/-! ## Rows -/

section
variable {table : String} {t : Token}

theorem sited_recordGeneratedKey (key? : Option String) (column : Column) (value : Expression)
    (ht : IsTokenOf d sql t) : SitedAny d sql (recordGeneratedKey key? column value t.start) :=
  .ite (.ite sited_modifyDraft (.throw ⟨t, ht, rfl⟩)) (.pure trivial)

theorem sited_recordValues (place : RowPlace) (pairs : List (Column × Expression))
    (ht : IsTokenOf d sql t) (hplace : place.start = t.start) :
    SitedAny d sql (recordValues rule table place pairs) := by
  -- all values of a row have the place of the row
  have hkey (pair : Column × Expression) : SitedAny d sql
      (recordGeneratedKey (rule.generatedKey? table) pair.1 pair.2 place.start) := by
    rw [hplace]
    exact sited_recordGeneratedKey _ _ _ ht
  exact (Sited.forM hkey).next fun _ => sited_cursor.any.next fun c => sited_modifyDraft

theorem sited_recordRow (place : RowPlace) (values : List Expression) (ht : IsTokenOf d sql t)
    (hplace : place.start = t.start) : SitedAny d sql (recordRow rule table place values) := by
  refine sited_modifyDraft.next fun _ => sited_draft.next fun s => .ite (.throw ⟨t, ht, hplace⟩) ?_
  exact sited_recordValues place _ ht hplace

end

theorem sited_valuesRow (table : String) : SitedAny d sql (valuesRow rule table) := by
  refine sited_current.bind fun t ht => (Sited.onFindings sited_modifyDraft).next fun _ => ?_
  refine sited_draft.next fun s => sited_expect.next fun _ => ?_
  refine (Sited.commaSeparated (.onFindings sited_expression)).next fun values => ?_
  refine sited_expect.next fun _ => sited_cursor.any.next fun c => ?_
  exact sited_recordRow _ values ht rfl

theorem sited_valuesClause : SitedAny d sql (valuesClause rule) := by
  refine sited_grammar.next fun g => sited_skipIf.next fun b => .ite ?_ (.pure trivial)
  exact sited_insertTable.next fun table => .discard (.commaSeparated (sited_valuesRow table))

/-! ## Assignments -/

theorem sited_insertAssignment (table : String) :
    SitedAny d sql (insertAssignment rule table) := by
  refine sited_columnName.bind ?_
  rintro ⟨name, -⟩ ⟨t, ht, rfl⟩
  refine (Sited.onFindings sited_assignmentSign).next fun _ => ?_
  refine (Sited.onFindings sited_expression).next fun value => ?_
  refine (sited_recordGeneratedKey _ _ _ ht).next fun _ => ?_
  exact sited_modifyDraft.next fun _ => .pure trivial

theorem sited_insertAssignments : SitedAny d sql (insertAssignments rule) := by
  refine sited_grammar.next fun g => .ite ?_ (.pure trivial)
  refine sited_skipKeyword.next fun b => .ite ?_ (.pure trivial)
  refine sited_modifyDraft.next fun _ => sited_insertTable.next fun table => ?_
  refine sited_current.any.next fun t => sited_draft.next fun s => ?_
  refine (Sited.commaSeparated (sited_insertAssignment table)).next fun conditions => ?_
  exact sited_cursor.any.next fun c => sited_modifyDraft

theorem sited_duplicateKeyAssignment (table : String) :
    SitedAny d sql (duplicateKeyAssignment rule table) := by
  have hvalue : SitedAny d sql (do
      expectSymbol .equal
      let _ ← onFindings expression : Parser InsertStatement Unit) :=
    sited_expect.next fun _ => (Sited.onFindings sited_expression).next fun _ => .pure trivial
  refine sited_current.bind fun t ht => (Sited.onFindings sited_expression).next fun e => ?_
  cases e.columnName? with
  | some name => exact .ite (.next (.throw ⟨t, ht, rfl⟩) fun _ => hvalue) hvalue
  | none => exact hvalue

theorem sited_duplicateKeyClause : SitedAny d sql (duplicateKeyClause rule) := by
  refine sited_grammar.next fun g => .ite ?_ (.pure trivial)
  refine sited_skipKeyword.next fun b => .ite ?_ (.pure trivial)
  refine sited_expect.next fun _ => sited_expect.next fun _ => sited_expect.next fun _ => ?_
  refine sited_insertTable.next fun table => ?_
  exact .discard (.commaSeparated (sited_duplicateKeyAssignment table))

end SqlFront.Clause
