import SqlFront.Clause.Expression
import SqlFront.Clause.TableReference
import SqlFront.Clause.Where
import SqlFront.Proofs.Wording.Basic

/-!
# Clauses of the same words

FROM without sub-queries and WHERE take no place of the text into the tables and conditions that
they record. Places stand in edits, and the text between two places in expressions that are kept
as text, which give no condition.
-/

set_option autoImplicit false

namespace SqlFront

open SqlFront.Parser SqlFront.Clause

variable {P : Pairing} {rule : ShardingRule}

/-! ## Expressions

Two readings of an expression find the same, or each of them a piece of its text. -/

inductive Pairing.Value (P : Pairing) : Expression → Expression → Prop
  | same (e : Expression) : P.Value e e
  | text {x y : String} : P.texts x y → P.Value (.raw x) (.raw y)

theorem agrees_skipParentheses : Agrees P P.Found Any skipParentheses skipParentheses := by
  refine agrees_isAt.next fun _ => .ite ?_ (.pure trivial)
  refine agrees_current.bind fun t u _ => agrees_advance.next fun _ => ?_
  refine Agrees.repeatFrom (ρ := Eq) (fun n m hnm => ?_) rfl
  subst hnm
  refine agrees_current.bind fun x y hxy => ?_
  rw [hxy.1.type]
  split
  · refine agrees_countPlaceholder.next fun _ => agrees_advance.next fun _ => ?_
    exact .pure (.inl rfl)
  · exact agrees_advance.next fun _ => .pure (.inl rfl)
  · refine agrees_advance.next fun _ => .ite ?_ (.pure (.inl rfl))
    exact agrees_cursor.bind fun _ _ _ => .pure (.inr trivial)
  · exact agrees_cursor.bind fun _ _ _ => .pure (.inr trivial)
  · exact agrees_advance.next fun _ => .pure (.inl rfl)

theorem agrees_skipOperand : Agrees P P.Found Eq skipOperand skipOperand := by
  have rest : Agrees P P.Found Eq (do
      if ← isAt (.symbol .leftParen) then
        let _ ← skipParentheses
      else
        advance
        let _ ← skipParentheses : Parser Findings Unit) (do
      if ← isAt (.symbol .leftParen) then
        let _ ← skipParentheses
      else
        advance
        let _ ← skipParentheses) := by
    refine agrees_isAt.next fun _ => .ite ?_ (agrees_advance.next fun _ => ?_)
    · exact agrees_skipParentheses.bind fun _ _ _ => .pure rfl
    · exact agrees_skipParentheses.bind fun _ _ _ => .pure rfl
  refine agrees_isAt.next fun _ => .ite ?_ rest
  exact agrees_countPlaceholder.next fun _ => rest

theorem agrees_skipOperations : Agrees P P.Found Eq skipOperations skipOperations :=
  .whileM agrees_skipIf agrees_skipOperand

theorem SameWord.isNegativeNumber {t u : Token} (h : SameWord t u) :
    isNegativeNumber t = isNegativeNumber u := by
  rw [Clause.isNegativeNumber, Clause.isNegativeNumber, h.type, h.literals]

theorem agrees_skipContinuation : Agrees P P.Found Eq skipContinuation skipContinuation := by
  refine agrees_isAtAny.next fun _ => .ite ?_ (agrees_current.bind fun t u htu => ?_)
  · exact agrees_skipOperations.next fun _ => .pure rfl
  · rw [htu.1.isNegativeNumber]
    exact .ite (agrees_advance.next fun _ => .pure rfl) (.pure rfl)

theorem agrees_rawFrom {m n : ℕ} (h : P.places m n) :
    Agrees P P.Found P.Value (rawFrom m) (rawFrom n) :=
  agrees_cursor.bind fun _ _ hcd => .pure (.text (P.trim (P.slice hcd h (P.stop hcd))))

theorem SameWord.literal {t u : Token} (h : SameWord t u) : literal t = literal u := by
  unfold Clause.literal
  rw [h.type, h.literals]

theorem agrees_primary : Agrees P P.Found Eq primary primary := by
  refine agrees_isAt.next fun _ => .ite ?_ (agrees_current.bind fun t u htu => ?_)
  · exact agrees_countPlaceholder.next fun _ => .pure rfl
  · exact .pure htu.1.literal

theorem agrees_operandChain : Agrees P P.Found P.Value operandChain operandChain := by
  refine agrees_current.bind fun t u ⟨htu, hstart⟩ => agrees_isAt.next fun _ => .ite ?_ ?_
  · refine agrees_skipParentheses.bind fun _ _ _ => ?_
    exact agrees_skipOperations.next fun _ => agrees_rawFrom hstart
  refine agrees_primary.next fun e => agrees_advance.next fun _ => ?_
  refine agrees_skipIf.next fun _ => .ite ?_ (agrees_isAt.next fun _ => .ite ?_ ?_)
  · refine agrees_current.bind fun x y hxy => agrees_advance.next fun _ => ?_
    refine agrees_skipContinuation.next fun _ => .ite (agrees_rawFrom hstart) ?_
    rw [htu.literals, hxy.1.literals]
    exact .pure (.same _)
  · refine agrees_skipParentheses.bind fun _ _ _ => ?_
    exact agrees_skipOperations.next fun _ => agrees_rawFrom hstart
  · exact agrees_skipContinuation.next fun _ => .ite (agrees_rawFrom hstart) (.pure (.same _))

theorem agrees_addEdit {x y : Edit} (hx : x.items? = none) (hy : y.items? = none) :
    Agrees P P.Found Eq (modifyDraft fun f => f.addEdit x) (modifyDraft fun f => f.addEdit y) :=
  agrees_modifyDraft fun _ _ h =>
    ⟨⟨h.same.tables, h.same.conditions, h.same.placeholders⟩, P.add h.edits hx hy⟩

theorem agrees_expression : Agrees P P.Found P.Value expression expression := by
  refine agrees_current.bind fun t u _ => agrees_operandChain.bind fun e e' he => ?_
  cases he with
  | text h => exact .pure (.text h)
  | same e =>
    cases e with
    | property owner name =>
      refine agrees_draft.bind fun f g hfg => ?_
      rw [hfg.same.tables]
      exact .ite ((agrees_addEdit rfl rfl).next fun _ => .pure (.same _)) (.pure (.same _))
    | _ => exact .pure (.same _)

/-! ## Tables -/

theorem agrees_nameHere : Agrees P P.Found Eq (nameHere : Parser Findings String) nameHere := by
  refine agrees_current.bind fun t u htu => ?_
  rw [htu.1.literals]
  exact agrees_advance.next fun _ => .pure rfl

theorem agrees_alias? : Agrees P P.Found Eq (alias? : Parser Findings (Option String)) alias? := by
  refine agrees_skipIf.next fun _ => .ite ?_ (agrees_isAtAny.next fun _ => .ite ?_ (.pure rfl))
  · refine agrees_current.bind fun t u htu => ?_
    rw [htu.1.type]
    exact .ite (.pure rfl) (agrees_nameHere.next fun _ => .pure rfl)
  · exact agrees_nameHere.next fun _ => .pure rfl

theorem agrees_skipIndexHints : Agrees P P.Found Eq skipIndexHints skipIndexHints := by
  refine agrees_grammar.next fun _ => .ite (.whileM agrees_skipIf ?_) (.pure rfl)
  refine agrees_skipIf.next fun _ => agrees_skipIf.next fun _ => .ite ?_ ?_
  · refine agrees_advance.next fun _ => agrees_skipIf.next fun _ => ?_
    exact agrees_skipParentheses.bind fun _ _ _ => .pure rfl
  · exact agrees_skipParentheses.bind fun _ _ _ => .pure rfl

theorem agrees_tableToken : Agrees P P.Found SameWord tableToken tableToken := by
  refine agrees_current.bind fun t u htu => agrees_advance.next fun _ => ?_
  exact agrees_isAt.next fun _ => .ite .throw (.pure htu.1)

theorem agrees_tableFactor (single : Bool) :
    Agrees P P.Found Eq (tableFactor rule single) (tableFactor rule single) := by
  refine agrees_tableToken.bind fun t u htu => ?_
  rw [htu.literals]
  refine agrees_alias?.next fun a => ?_
  have record : Agrees P P.Found Eq
      (modifyDraft fun f =>
        (f.addEdit (.table t.start u.literals)).addTable ⟨unquoted u.literals, a⟩)
      (modifyDraft fun f =>
        (f.addEdit (.table u.start u.literals)).addTable ⟨unquoted u.literals, a⟩) := by
    refine agrees_modifyDraft fun x y h => ⟨?_, P.add h.edits rfl rfl⟩
    exact ⟨congrArg (Tables.add · ⟨unquoted u.literals, a⟩) h.same.tables, h.same.conditions,
      h.same.placeholders⟩
  exact .ite (record.next fun _ => agrees_skipIndexHints) agrees_skipIndexHints

theorem agrees_joinType : Agrees P P.Found Eq joinType joinType := by
  refine agrees_grammar.next fun _ => agrees_isAtAny.next fun _ => .ite ?_ (.pure rfl)
  exact agrees_skipAll.next fun _ => .pure rfl

theorem agrees_joinCondition : Agrees P P.Found Eq joinCondition joinCondition := by
  refine agrees_skipIf.next fun _ => .ite ?_ (agrees_skipIf.next fun _ => .ite ?_ (.pure rfl))
  · refine .discard (.separated (ρ := Eq) (agrees_expression.bind fun _ _ _ => ?_))
    refine agrees_skipIf.next fun _ => .ite (agrees_expect.next fun _ => ?_) ?_
    · exact agrees_expression.bind fun _ _ _ => .pure rfl
    · exact agrees_expression.bind fun _ _ _ => .pure rfl
  · exact agrees_skipParentheses.bind fun _ _ _ => .pure rfl

theorem agrees_joins : Agrees P P.Found Eq (joins rule) (joins rule) := by
  have joined : Agrees P P.Found Eq (do
      tableFactor rule false
      joinCondition) (do
      tableFactor rule false
      joinCondition) :=
    (agrees_tableFactor false).next fun _ => agrees_joinCondition
  refine .whileM agrees_joinType (agrees_isAt.next fun _ => .ite ?_ joined)
  exact Agrees.next .failAt fun _ => joined

theorem agrees_tableReferences (single : Bool) :
    Agrees P P.Found Eq (tableReferences rule single) (tableReferences rule single) := by
  refine agrees_current.bind fun _ _ _ => Agrees.next (.discard (.separated (ρ := Eq) ?_)) fun _ => ?_
  · exact (agrees_tableFactor single).next fun _ => agrees_joins
  · cases single with
    | false => exact .pure rfl
    | true =>
      refine agrees_draft.bind fun f g hfg => ?_
      rw [hfg.same.tables]
      exact .ite .throw (.pure rfl)

/-! ## Conditions -/

theorem Pairing.Value.findColumn? {e e' : Expression} {f g : Findings} (h : P.Value e e')
    (hf : P.Found f g) : findColumn? f e = findColumn? g e' := by
  cases h with
  | same e => cases e <;> simp [Clause.findColumn?, hf.same.tables]
  | text => rfl

/-- Values that choose a shard are the same. -/
theorem Pairing.Value.values {xs ys : List Expression} (h : List.Forall₂ P.Value xs ys) :
    xs.all Expression.isShardingValue = ys.all Expression.isShardingValue ∧
      (xs.all Expression.isShardingValue = true → xs = ys) := by
  induction h with
  | nil => exact ⟨rfl, fun _ => rfl⟩
  | cons hx _ ih =>
    cases hx with
    | same e =>
      refine ⟨by simp [ih.1], fun hall => ?_⟩
      rw [List.all_cons, Bool.and_eq_true] at hall
      rw [ih.2 hall.2]
    | text =>
      refine ⟨by simp [Expression.isShardingValue], fun hall => ?_⟩
      simp [Expression.isShardingValue] at hall

theorem agrees_recordCondition {e e' : Expression} {xs ys : List Expression}
    {op : ConditionOperator} (he : P.Value e e') (h : List.Forall₂ P.Value xs ys) :
    Agrees P P.Found Eq (recordCondition rule e op xs) (recordCondition rule e' op ys) := by
  refine agrees_draft.bind fun f g hfg => ?_
  rw [he.findColumn? hfg]
  cases findColumn? g e' with
  | none => exact .pure rfl
  | some column =>
    obtain ⟨hall, heq⟩ := Pairing.Value.values h
    simp only [hall]
    by_cases hy : ys.all Expression.isShardingValue = true
    · obtain rfl := heq (hall ▸ hy)
      refine .ite (agrees_modifyDraft fun x y hxy => ⟨?_, hxy.edits⟩) (.pure rfl)
      exact ⟨hxy.same.tables, congrArg (Conditions.add · ⟨column, op, xs⟩) hxy.same.conditions,
        hxy.same.placeholders⟩
    · simp only [hy, Bool.false_and, Bool.false_eq_true, if_false]
      exact .pure rfl

theorem agrees_inValues : Agrees P P.Found (Option.Rel (List.Forall₂ P.Value)) inValues inValues := by
  refine agrees_isAtSubQuery.next fun _ => .ite ?_ (agrees_expect.next fun _ => ?_)
  · exact agrees_skipParentheses.bind fun _ _ _ => .pure .none
  · refine agrees_expression.separated.bind fun xs ys h => ?_
    exact agrees_expect.next fun _ => .pure (.some h)

theorem agrees_betweenValues : Agrees P P.Found (List.Forall₂ P.Value) betweenValues betweenValues := by
  refine agrees_expression.bind fun _ _ hlow => agrees_expect.next fun _ => ?_
  exact agrees_expression.bind fun _ _ hhigh => .pure (.cons hlow (.cons hhigh .nil))

theorem agrees_pattern : Agrees P P.Found Eq pattern pattern := by
  refine agrees_expression.bind fun _ _ _ => agrees_skipIf.next fun _ => .ite ?_ (.pure rfl)
  exact agrees_expression.bind fun _ _ _ => .pure rfl

theorem agrees_unrecordedComparison : Agrees P P.Found Eq unrecordedComparison unrecordedComparison := by
  refine agrees_skipIf.next fun _ => .ite ?_ ?_
  · refine agrees_skipIf.next fun _ => .ite ?_ ?_
    · exact agrees_skipParentheses.bind fun _ _ _ => .pure rfl
    refine agrees_skipIf.next fun _ => .ite ?_ ?_
    · exact agrees_betweenValues.bind fun _ _ _ => .pure rfl
    exact agrees_skipIf.next fun _ => .ite agrees_pattern (.pure rfl)
  refine agrees_skipIf.next fun _ => .ite ?_ ?_
  · refine agrees_skipIf.next fun _ => ?_
    exact agrees_expression.bind fun _ _ _ => .pure rfl
  refine agrees_skipIf.next fun _ => .ite agrees_pattern ?_
  refine agrees_skipIf.next fun _ => .ite ?_ (.pure rfl)
  exact agrees_expression.bind fun _ _ _ => .pure rfl

theorem agrees_comparisonOf {e e' : Expression} (he : P.Value e e') :
    Agrees P P.Found Eq (comparisonOf rule e) (comparisonOf rule e') := by
  refine agrees_skipIf.next fun _ => .ite ?_ (agrees_skipIf.next fun _ => .ite ?_ ?_)
  · exact agrees_expression.bind fun _ _ hx => agrees_recordCondition he (.cons hx .nil)
  · refine agrees_inValues.bind fun _ _ h => ?_
    cases h with
    | none => exact .pure rfl
    | some h => exact agrees_recordCondition he h
  refine agrees_skipIf.next fun _ => .ite ?_ agrees_unrecordedComparison
  exact agrees_betweenValues.bind fun _ _ h => agrees_recordCondition he h

theorem agrees_openParentheses : Agrees P P.Found Eq openParentheses openParentheses := by
  refine Agrees.repeatFrom (ρ := Eq) (fun n m hnm => ?_) rfl
  subst hnm
  refine agrees_isAt.next fun _ => .ite ?_ (.pure (.inr rfl))
  refine agrees_isAtSubQuery.next fun _ => .ite (.pure (.inr rfl)) ?_
  exact agrees_advance.next fun _ => .pure (.inl rfl)

theorem agrees_closeParentheses (n : ℕ) :
    Agrees P P.Found Eq (closeParentheses n) (closeParentheses n) := by
  induction n with
  | zero => exact .pure rfl
  | succ n ih =>
    exact agrees_skipIf.next fun _ => .ite (ih.next fun _ => .pure rfl) (.pure rfl)

theorem agrees_comparison : Agrees P P.Found Eq (comparison rule) (comparison rule) := by
  refine agrees_openParentheses.next fun n => agrees_expression.bind fun e e' he => ?_
  refine (agrees_closeParentheses n).next fun m => (agrees_comparisonOf he).next fun _ => ?_
  exact (agrees_closeParentheses (n - m)).next fun _ => .pure rfl

def comparisons (rule : ShardingRule) : Parser Findings Unit := do
  let _ ← separated [.keyword .AND] (comparison rule)
  if ← isAt (.keyword .OR) then failAt Cursor.refusal

theorem whereClause_eq (rule : ShardingRule) : whereClause rule = (do
    if ← skipKeyword .WHERE then comparisons rule) := rfl

theorem agrees_comparisons : Agrees P P.Found Eq (comparisons rule) (comparisons rule) := by
  refine agrees_comparison.separated.bind fun _ _ _ => ?_
  exact agrees_isAt.next fun _ => .ite .failAt (.pure rfl)

theorem agrees_whereClause : Agrees P P.Found Eq (whereClause rule) (whereClause rule) :=
  agrees_skipIf.next fun _ => .ite agrees_comparisons (.pure rfl)

end SqlFront
